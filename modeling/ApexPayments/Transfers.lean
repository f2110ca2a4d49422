import ApexPayments.Journal

/-!
Specifications of the services that move money. Each of them stages rows, posts one
ledger transaction and announces it in the outbox; `Transferred` is this effect on
the tables, and `holdOf`, `settleOf`, `reverseOf` and `refundOf` say what is posted
and announced.
-/
namespace ApexPayments.Payments

open Domain Store Ledger RowLocking DoubleEntry

variable {F : Frame backend}

section Transfer

/-- A ledger transaction together with the event that announces it. -/
structure Transfer where
  type : TransactionType
  reference : Uuid
  postings : List Posting
  aggregateType : String
  eventType : String
  payload : List (String × Json)

def holdOf (p : Payment) : Transfer where
  type := .payment
  reference := p.id
  postings := [⟨p.payerAccount, .debit, p.amount⟩, ⟨suspenseAccountId, .credit, p.amount⟩]
  aggregateType := "payment"
  eventType := "payment.processing"
  payload := eventPayload p ++ [("currency", .str p.currency), ("status", .str p.status.value)]

def settleOf (p : Payment) (pspReference : String) : Transfer where
  type := .payment
  reference := p.id
  postings := [⟨suspenseAccountId, .debit, p.amount⟩, ⟨p.payeeAccount, .credit, p.amount⟩]
  aggregateType := "payment"
  eventType := "payment.succeeded"
  payload := eventPayload p ++ [("currency", .str p.currency), ("status", .str p.status.value),
    ("pspReference", .str pspReference)]

def reverseOf (p : Payment) : Transfer where
  type := .reversal
  reference := p.id
  postings := [⟨suspenseAccountId, .debit, p.amount⟩, ⟨p.payerAccount, .credit, p.amount⟩]
  aggregateType := "payment"
  eventType := "payment.failed"
  payload := eventPayload p ++ [("status", .str p.status.value)]

def refundOf (p : Payment) (r : Refund) : Transfer where
  type := .refund
  reference := r.id
  postings := [⟨p.payeeAccount, .debit, r.amount⟩, ⟨p.payerAccount, .credit, r.amount⟩]
  aggregateType := "refund"
  eventType := "refund.completed"
  payload := [("refundId", .str r.id.str), ("paymentId", .str p.id.str),
    ("amount", .int r.amount), ("status", .str r.status.value)]

/-- The ledger transaction and the event are written; nothing else has changed. -/
structure Announced (t : Transfer) (txn : LedgerTransaction) (event : Outbox)
    (s s' : Database) : Prop where
  posted : ∃ s₁, Posted s s₁ txn t.postings ∧ s' = s₁.put (.outbox event)
  type : txn.type = t.type
  reference : txn.referenceId = t.reference
  announced : event = ⟨event.id, t.aggregateType, t.reference, t.eventType, t.payload,
    event.createdAt, none⟩

/-- The ledger transaction and the event are in the tables, where the event is new. -/
structure Transferred (t : Transfer) (txn : LedgerTransaction) (event : Outbox)
    (s s' : Database) : Prop extends Announced t txn event s s' where
  fresh : s.outbox.find? event.id = none

/-- The tables that a transfer leaves alone. -/
structure SameRecords (s s' : Database) : Prop where
  accounts : s'.accounts = s.accounts
  payments : s'.payments = s.payments
  refunds : s'.refunds = s.refunds
  idempotencyKeys : s'.idempotencyKeys = s.idempotencyKeys
  webhookEvents : s'.webhookEvents = s.webhookEvents
  outbox : ∀ id e, s.outbox.find? id = some e → s'.outbox.find? id = some e

theorem Transferred.same {t : Transfer} {txn : LedgerTransaction} {event : Outbox}
    {s s' : Database} (h : Transferred t txn event s s') : SameRecords s s' := by
  obtain ⟨s₁, hp, rfl⟩ := h.posted
  have hs := hp.elsewhere
  unfold SameElsewhere at hs
  rw [hs]
  refine ⟨rfl, rfl, rfl, rfl, rfl, ?_⟩
  intro id e he
  apply (s.outbox.find?_put_of_ne event id ?_).trans he
  rintro rfl
  rw [h.fresh] at he
  contradiction

/-- The payments that the session has inserted. -/
def insertedPayments (ws : List (Write backend)) : List Payment :=
  ws.filterMap fun
    | .insert (.payment p) => some p
    | _ => none

def opened (L : Session backend) : List Payment := insertedPayments (L.flushed ++ L.pending)

theorem opened_flushAll (L : Session backend) : opened L.flushAll = opened L := by
  simp [opened, Session.flushAll]

theorem opened_stage (L : Session backend) (w : Write backend) :
    opened (L.stage w) = opened L ++ insertedPayments [w] := by
  simp [opened, insertedPayments, Session.stage]

theorem insertedPayments_ledger {id : Uuid} {ws : List (Write backend)}
    (h : ∀ w ∈ ws, LedgerRow id w.row) : insertedPayments ws = [] := by
  refine List.filterMap_eq_nil_iff.mpr ?_
  intro w hw
  have hrow := h w hw
  cases w with
  | insert r =>
    cases r with
    | payment p => exact hrow.elim
    | _ => rfl
  | update r => rfl

theorem opened_post {type : TransactionType} {ref : Uuid} {ps : List Posting}
    {L L' : Session backend} {txn : LedgerTransaction}
    (h : PostReturns F type ref ps L txn L') : opened L' = opened L := by
  obtain ⟨ws, hws, hrows⟩ := h.writes
  rw [opened, h.pending, hws, List.append_nil]
  unfold insertedPayments
  rw [List.filterMap_append]
  change _ ++ insertedPayments ws = _
  rw [insertedPayments_ledger hrows, List.append_nil]
  rfl

/-- Posting `t` and announcing it, starting in session `L`. -/
structure TransferReturns (F : Frame backend) (t : Transfer) (L : Session backend)
    (txn : LedgerTransaction) (event : Outbox) (L' : Session backend) : Prop where
  effect : Announced t txn event (F.working L) (F.working L')
  txn_unspent : txn.id ∉ F.spent
  txn_undrawn : txn.id ∉ L.drawn
  event_unspent : event.id ∉ F.spent
  event_undrawn : event.id ∉ txn.id :: L.drawn
  drawn : L'.drawn = event.id :: txn.id :: L.drawn
  earlier : F.Flushes L.flushed L.pending
  opened : opened L' = opened L
  sealed : Sealed F L → Sealed F L'
  accounts : ∀ p ∈ t.postings, ∃ s, F.Sees s ∧ s.hasAccount p.accountId = true
  pending : L'.pending = [] ∧ (F.working L).outbox.find? event.id = none ∨
    L'.pending = [.insert (.outbox event)] ∧ (view F.hi L'.flushed).outbox = (F.working L).outbox
  records : ∀ s, (view s L'.flushed).idempotencyKeys =
    (view s (L.flushed ++ L.pending)).idempotencyKeys

/-- The insert of the event is accepted only when the event is new. -/
theorem TransferReturns.fresh {t : Transfer} {L L' : Session backend}
    {txn : LedgerTransaction} {event : Outbox} (h : TransferReturns F t L txn event L')
    (hf : F.Flushes L'.flushed L'.pending) : (F.working L).outbox.find? event.id = none := by
  rcases h.pending with ⟨_, hfresh⟩ | ⟨hp, houtbox⟩
  · exact hfresh
  · rw [hp] at hf
    rw [← houtbox]
    exact Option.map_eq_none_iff.mp (Frame.fresh_of_flushes hf)

theorem TransferReturns.transferred {t : Transfer} {L L' : Session backend}
    {txn : LedgerTransaction} {event : Outbox} (h : TransferReturns F t L txn event L')
    (hf : F.Flushes L'.flushed L'.pending) :
    Transferred t txn event (F.working L) (F.working L') :=
  ⟨h.effect, h.fresh hf⟩

theorem TransferReturns.flushAll {t : Transfer} {L L' : Session backend}
    {txn : LedgerTransaction} {event : Outbox} (h : TransferReturns F t L txn event L')
    (hf : F.Flushes L'.flushed L'.pending) : TransferReturns F t L txn event L'.flushAll where
  effect := by
    rw [Frame.working_flushAll]
    exact h.effect
  txn_unspent := h.txn_unspent
  txn_undrawn := h.txn_undrawn
  event_unspent := h.event_unspent
  event_undrawn := h.event_undrawn
  drawn := h.drawn
  earlier := h.earlier
  opened := (opened_flushAll L').trans h.opened
  sealed := fun hs => (h.sealed hs).flushAll
  accounts := h.accounts
  pending := Or.inl ⟨rfl, h.fresh hf⟩
  records := by
    intro s
    rw [← h.records s]
    change (view s (L'.flushed ++ L'.pending)).idempotencyKeys = _
    rcases h.pending with ⟨hp, _⟩ | ⟨hp, _⟩
    · rw [hp, List.append_nil]
    · rw [hp, view_append]
      rfl

theorem ensures_transfer {β : Type} {t : Transfer} {L : Session backend}
    {f : Unit → Program β} {R : Stop backend β → Prop}
    (hraise : ∀ e L', PostStops F t.type t.reference t.postings L e L' → R (.raised e L'))
    (hnext : ∀ txn event L', TransferReturns F t L txn event L' → (f ()).Ensures F L' R) :
    (post t.type t.reference t.postings >>= fun _ =>
      addOutbox t.aggregateType t.reference t.eventType t.payload >>= f).Ensures F L R := by
  refine Prog.Ensures.bind (post_stops t.type t.reference t.postings L) hraise ?_
  intro txn L₁ h
  refine ensures_uuid4 ?_
  intro id hspent hdrawn
  refine ensures_now ?_
  intro createdAt
  refine ensures_add ?_
  let event : Outbox :=
    ⟨id, t.aggregateType, t.reference, t.eventType, t.payload, createdAt, none⟩
  obtain ⟨ws, hws, hrows⟩ := h.writes
  have hstage : Sealed F (L₁.draw id) → Sealed F ((L₁.draw id).stage (.insert (.outbox event))) :=
    fun hs => hs.stage trivial
  refine hnext txn event _ ⟨⟨⟨_, h.posted, ?_⟩, h.type, h.reference, rfl⟩, h.unspent, h.undrawn,
    hspent, ?_, ?_, h.earlier, ?_, fun hs => ?_, h.accounts, ?_, ?_⟩
  · rw [Frame.working_stage]
    rfl
  · rw [← h.drawn]
    exact hdrawn
  · change id :: L₁.drawn = _
    rw [h.drawn]
  · rw [opened_stage, ← opened_post h]
    exact List.append_nil _
  · have hs₁ := h.sealed hs
    exact hstage ⟨hs₁.known, hs₁.nets⟩
  · refine Or.inr ⟨?_, ?_⟩
    · change L₁.pending ++ _ = _
      rw [h.pending]
      rfl
    · have hs := h.posted.elsewhere
      unfold SameElsewhere at hs
      change (view F.hi L₁.flushed).outbox = _
      rw [← Frame.working_of_pending L₁ h.pending, hs]
  · intro s
    change (view s L₁.flushed).idempotencyKeys = _
    rw [hws, view_append, view_ledger ws hrows]

end Transfer

section Saga

def held (p : Payment) : Payment := { p with status := .processing }

def settled (pspReference : String) (p : Payment) : Payment :=
  { p with status := .succeeded, pspReference := some pspReference, version := p.version + 1 }

def reversed (p : Payment) : Payment := { p with status := .failed, version := p.version + 1 }

def awaiting (pspReference : Option String) (p : Payment) : Payment :=
  { p with status := .authorized, pspReference := pspReference }

/-- A hold that went through. -/
structure HoldReturns (F : Frame backend) (p : Payment) (L : Session backend)
    (txn : LedgerTransaction) (event : Outbox) (L' : Session backend) : Prop where
  fresh : (F.working L).payments.find? p.id = none
  earlier : F.Flushes L.flushed L.pending
  transfer : TransferReturns F (holdOf p) (L.stage (.insert (.payment p))).flushAll txn event L'
  pending : L'.pending = []

/-- The session in which a hold has written the row of its payment. -/
def opening (p : Payment) (L : Session backend) : Session backend :=
  (L.stage (.insert (.payment p))).flushAll

/-- Where a hold has raised. -/
inductive HoldStops (F : Frame backend) (p : Payment) (L : Session backend) : Exn → Prop
  | row (e : Exn) (h : F.FlushFails e L.flushed (L.pending ++ [.insert (.payment p)])) :
      HoldStops F p L e
  | posting (e : Exn) (L' : Session backend)
      (hf : F.Flushes L.flushed (L.pending ++ [.insert (.payment p)]))
      (h : PostStops F (holdOf p).type (holdOf p).reference (holdOf p).postings (opening p L) e L') :
      HoldStops F p L e
  | announcing (e : Exn) (txn : LedgerTransaction) (event : Outbox) (L₁ : Session backend)
      (h : TransferReturns F (holdOf p) (opening p L) txn event L₁)
      (hf : F.FlushFails e L₁.flushed L₁.pending) : HoldStops F p L e

theorem hold_stops (payment : Payment) (L : Session backend) :
    (hold payment).Ensures F L (Stop.Ends
      (fun e _ => HoldStops F (held payment) L e)
      (fun p L' => p = held payment ∧
        F.Flushes L.flushed (L.pending ++ [.insert (.payment (held payment))]) ∧
        ∃ txn event, HoldReturns F (held payment) L txn event L')) := by
  unfold hold
  refine ensures_add (ensures_flush ?_ fun e _ he => .row e he)
  intro hf
  refine ensures_transfer (t := holdOf (held payment)) (fun e L' he => .posting e L' hf he) ?_
  intro txn event L₁ h
  refine ensures_flush ?_ fun e _ he => .announcing e txn event L₁ h he
  intro hf₁
  refine Prog.Ensures.pure ⟨rfl, hf, txn, event, ?_, ?_, h.flushAll hf₁, rfl⟩
  · exact Option.map_eq_none_iff.mp (Frame.get_of_flushes hf)
  · exact ((Frame.flushes_append _ _ _).mp hf).1

theorem hold_ensures (payment : Payment) (L : Session backend) :
    (hold payment).Ensures F L (Stop.Ends
      (fun e _ => Refused e ∨ PostRaises F (holdOf (held payment)).postings
        (L.stage (.insert (.payment (held payment)))).flushAll e)
      (fun p L' => p = held payment ∧ ∃ txn event, HoldReturns F (held payment) L txn event L')) := by
  refine (hold_stops payment L).ends ?_ fun _ _ h => ⟨h.1, h.2.2⟩
  intro e _ h
  cases h with
  | row h => exact Or.inl (refused_of_flushFails h)
  | posting L' hf h => exact Or.inr h.raises
  | announcing txn event L₁ h hf => exact Or.inl (refused_of_flushFails hf)

/-- A payment found under its lock, given its new state, and a transfer for it. -/
structure ResolveReturns (F : Frame backend) (id : Uuid) (q : Payment → Payment)
    (t : Payment → Transfer) (L : Session backend) (p : Payment) (txn : LedgerTransaction)
    (event : Outbox) (L' : Session backend) : Prop where
  found : (F.working L).payments.find? id = some p
  transfer : TransferReturns F (t (q p))
    ((L.hold (.payment id)).stage (.update (.payment (q p)))) txn event L'
  pending : L'.pending = []

def ResolveRaises (F : Frame backend) (id : Uuid) (q : Payment → Payment)
    (t : Payment → Transfer) (L : Session backend) (e : Exn) : Prop :=
  (e = .paymentNotFound id ∧ ∃ s, F.Sees s ∧ (view s L.flushed).payments.find? id = none) ∨
    Refused e ∨ ∃ p, (F.working L).payments.find? id = some p ∧
      PostRaises F (t (q p)).postings ((L.hold (.payment id)).stage (.update (.payment (q p)))) e

/-- Where settling or reversing a payment has raised. -/
inductive ResolveStops (F : Frame backend) (id : Uuid) (q : Payment → Payment)
    (t : Payment → Transfer) (L : Session backend) : Exn → Prop
  | missing (s : Database) (hs : F.Sees s) (hn : (view s L.flushed).payments.find? id = none) :
      ResolveStops F id q t L (.paymentNotFound id)
  | posting (e : Exn) (p : Payment) (L' : Session backend)
      (hfound : (F.working L).payments.find? id = some p)
      (h : PostStops F (t (q p)).type (t (q p)).reference (t (q p)).postings
        ((L.hold (.payment id)).stage (.update (.payment (q p)))) e L') :
      ResolveStops F id q t L e
  | announcing (e : Exn) (p : Payment) (txn : LedgerTransaction) (event : Outbox)
      (L₁ : Session backend) (hfound : (F.working L).payments.find? id = some p)
      (h : TransferReturns F (t (q p)) ((L.hold (.payment id)).stage (.update (.payment (q p))))
        txn event L₁)
      (hf : F.FlushFails e L₁.flushed L₁.pending) : ResolveStops F id q t L e

theorem ResolveStops.raises {id : Uuid} {q : Payment → Payment} {t : Payment → Transfer}
    {L : Session backend} {e : Exn} (h : ResolveStops F id q t L e) : ResolveRaises F id q t L e := by
  cases h with
  | missing s hs hn => exact Or.inl ⟨rfl, s, hs, hn⟩
  | posting e p L' hfound h => exact Or.inr (Or.inr ⟨p, hfound, h.raises⟩)
  | announcing e p txn event L₁ hfound h hf => exact Or.inr (Or.inl (refused_of_flushFails hf))

theorem settle_stops (id : Uuid) (pspReference : String) (L : Session backend)
    (hp : L.pending = []) :
    (settle id pspReference).Ensures F L (Stop.Ends
      (fun e _ => ResolveStops F id (settled pspReference) (settleOf · pspReference) L e)
      (fun p' L' => ∃ p txn event, p' = settled pspReference p ∧
        ResolveReturns F id (settled pspReference) (settleOf · pspReference) L p txn event L')) := by
  unfold settle
  refine ensures_lockPayment ?_ ?_
  · exact fun s hs hn => Prog.Ensures.raise (.missing s hs.1 hn)
  · intro p hfound
    rw [← Frame.working_of_pending L hp] at hfound
    refine ensures_modify ?_
    refine ensures_transfer (t := settleOf (settled pspReference p) pspReference)
      (fun e L' he => .posting e p L' hfound he) ?_
    intro txn event L₁ h
    refine ensures_flush ?_ fun e _ he => .announcing e p txn event L₁ hfound h he
    intro hf
    exact Prog.Ensures.pure ⟨p, txn, event, rfl, hfound, h.flushAll hf, rfl⟩

theorem settle_ensures (id : Uuid) (pspReference : String) (L : Session backend)
    (hp : L.pending = []) :
    (settle id pspReference).Ensures F L (Stop.Ends
      (fun e _ => ResolveRaises F id (settled pspReference) (settleOf · pspReference) L e)
      (fun p' L' => ∃ p txn event, p' = settled pspReference p ∧
        ResolveReturns F id (settled pspReference) (settleOf · pspReference) L p txn event L')) :=
  (settle_stops id pspReference L hp).ends (fun _ _ h => h.raises) fun _ _ h => h

theorem reverse_stops (id : Uuid) (L : Session backend) (hp : L.pending = []) :
    (reverse id).Ensures F L (Stop.Ends
      (fun e _ => ResolveStops F id reversed reverseOf L e)
      (fun p' L' => ∃ p txn event, p' = reversed p ∧
        ResolveReturns F id reversed reverseOf L p txn event L')) := by
  unfold reverse
  refine ensures_lockPayment ?_ ?_
  · exact fun s hs hn => Prog.Ensures.raise (.missing s hs.1 hn)
  · intro p hfound
    rw [← Frame.working_of_pending L hp] at hfound
    refine ensures_modify ?_
    refine ensures_transfer (t := reverseOf (reversed p))
      (fun e L' he => .posting e p L' hfound he) ?_
    intro txn event L₁ h
    refine ensures_flush ?_ fun e _ he => .announcing e p txn event L₁ hfound h he
    intro hf
    exact Prog.Ensures.pure ⟨p, txn, event, rfl, hfound, h.flushAll hf, rfl⟩

theorem reverse_ensures (id : Uuid) (L : Session backend) (hp : L.pending = []) :
    (reverse id).Ensures F L (Stop.Ends
      (fun e _ => ResolveRaises F id reversed reverseOf L e)
      (fun p' L' => ∃ p txn event, p' = reversed p ∧
        ResolveReturns F id reversed reverseOf L p txn event L')) :=
  (reverse_stops id L hp).ends (fun _ _ h => h.raises) fun _ _ h => h

theorem awaitWebhook_ensures (id : Uuid) (pspReference : Option String) (L : Session backend)
    (hp : L.pending = []) :
    (awaitWebhook id pspReference).Ensures F L (Stop.Ends
      (fun e _ => e = .noResultFound ∧
        ∃ s, F.Sees s ∧ (view s L.flushed).payments.find? id = none)
      (fun p' L' => ∃ p, p' = awaiting pspReference p ∧
        (F.working L).payments.find? id = some p ∧
        L' = (L.hold (.payment id)).stage (.update (.payment (awaiting pspReference p))))) := by
  unfold awaitWebhook
  refine ensures_lockPayment ?_ ?_
  · exact fun s hs hn => Prog.Ensures.raise ⟨rfl, s, hs.1, hn⟩
  · intro p hfound
    rw [← Frame.working_of_pending L hp] at hfound
    exact ensures_modify (Prog.Ensures.pure ⟨p, rfl, hfound, rfl⟩)

end Saga

section Idempotency

def inProgress (m k hash : String) : IdempotencyRecord := ⟨m, k, hash, .inProgress, none, none, none⟩

def completed (resourceId : Uuid) (code : ℤ) (body : ResponseBody) (r : IdempotencyRecord) :
    IdempotencyRecord :=
  { r with
    status := .completed
    resourceId := some resourceId
    responseCode := some code
    responseBody := some body }

/-- The record that a claim found. -/
def ClaimFinds (F : Frame backend) (m k : String) (L : Session backend) (s : Database)
    (r : IdempotencyRecord) : Prop :=
  F.Sees s ∧ (view s L.flushed).idempotencyKeys.find? (m, k) = some r

def ClaimRaises (F : Frame backend) (m k hash : String) (L : Session backend) (e : Exn) : Prop :=
  (∃ s, F.Sees s ∧ (view s L.flushed).idempotencyKeys.find? (m, k) = none ∧ Refused e) ∨
    ∃ s r, ClaimFinds F m k L s r ∧
      (r.requestHash ≠ hash ∧ e = .idempotencyMismatch k ∨
        r.requestHash = hash ∧ r.status = .inProgress ∧ e = .idempotencyConflict k)

/-- A key claimed by the open transaction. -/
structure Claimed (F : Frame backend) (r : IdempotencyRecord) (L L' : Session backend) : Prop where
  window : ∃ s, F.Sees s ∧
    (view s L.flushed).idempotencyKeys.find? (r.merchantId, r.idemKey) = none
  fresh : (F.working L).idempotencyKeys.find? (r.merchantId, r.idemKey) = none
  working : F.working L' = (F.working L).put (.idempotencyRecord r)
  flushed : L'.flushed = L.flushed ++ [.insert (.idempotencyRecord r)]
  pending : L'.pending = []
  drawn : L'.drawn = L.drawn

theorem claimOrReplay_ensures (ext : Externals) (m k : String) (payload : Payload)
    (L : Session backend) (hp : L.pending = []) :
    (claimOrReplay ext m k payload).Ensures F L (Stop.Ends
      (fun e _ => ClaimRaises F m k (ext.hash payload) L e)
      (fun x L' => match x with
        | none => Claimed F (inProgress m k (ext.hash payload)) L L'
        | some (code, body) => ∃ s r, ClaimFinds F m k L s r ∧ L' = L.see s ∧
            r.requestHash = ext.hash payload ∧ r.status = .completed ∧
            code = codeOr200 r.responseCode ∧ body = r.responseBody)) := by
  unfold claimOrReplay
  refine Prog.Ensures.select ?_
  intro s hs
  cases hfind : (view s L.flushed).idempotencyKeys.find? (m, k) with
  | none =>
    refine ensures_add (ensures_flush ?_ fun e _ he =>
      Or.inl ⟨s, hs.1, hfind, refused_of_flushFails he⟩)
    intro hf
    refine Prog.Ensures.pure ⟨⟨s, hs.1, hfind⟩, ?_, ?_, ?_, rfl, rfl⟩
    · exact Option.map_eq_none_iff.mp (Frame.get_of_flushes hf)
    · rw [Frame.working_flushAll, Frame.working_stage]
      rfl
    · change L.flushed ++ (L.pending ++ _) = _
      rw [hp]
      rfl
  | some r =>
    simp only
    split
    · rename_i hne
      exact Prog.Ensures.raise (Or.inr ⟨s, r, ⟨hs.1, hfind⟩, Or.inl ⟨hne, rfl⟩⟩)
    · rename_i heq
      rw [ne_eq, not_not] at heq
      split
      · rename_i hst
        exact Prog.Ensures.raise (Or.inr ⟨s, r, ⟨hs.1, hfind⟩, Or.inr ⟨heq, hst, rfl⟩⟩)
      · rename_i hst
        exact Prog.Ensures.pure ⟨s, r, ⟨hs.1, hfind⟩, rfl, heq, hst, rfl, rfl⟩

/-- Completing a key: nothing without a record, otherwise the locked record is final. -/
def Completes (F : Frame backend) (m k : String) (id : Uuid) (code : ℤ) (body : ResponseBody)
    (L L' : Session backend) : Prop :=
  (∃ s, F.Sees s ∧ (view s L.flushed).idempotencyKeys.find? (m, k) = none ∧ L' = L.see s) ∨
    ∃ s r, (view F.hi L.flushed).idempotencyKeys.find? (m, k) = some r ∧
      F.Flushes L.flushed L.pending ∧ L' = (((L.see s).hold (.idempotencyRecord m k)).stage
        (.update (.idempotencyRecord (completed id code body r)))).flushAll

theorem complete_ensures (m k : String) (id : Uuid) (code : ℤ) (body : ResponseBody)
    (L : Session backend) :
    (complete m k id code body).Ensures F L (Stop.Ends
      (fun e _ => Refused e ∨
        e = .staleData ∧ ∃ s, F.Sees s ∧ (view s L.flushed).idempotencyKeys.find? (m, k) = none)
      (fun _ L' => Completes F m k id code body L L')) := by
  unfold complete
  refine Prog.Ensures.select ?_
  intro s hs
  cases hfind : (view s L.flushed).idempotencyKeys.find? (m, k) with
  | none => exact Prog.Ensures.pure (Or.inl ⟨s, hs.1, hfind, rfl⟩)
  | some r₀ =>
    refine ensures_lockRecord ?_ ?_
    · exact fun s' hs' hn => Prog.Ensures.raise (Or.inr ⟨rfl, s', hs'.1, hn⟩)
    · intro r hr
      refine ensures_modify ?_
      have hflush : (flush : Program Unit) = flush >>= pure := rfl
      rw [hflush]
      refine ensures_flush ?_ fun e _ he => Or.inl (refused_of_flushFails he)
      intro hf
      exact Prog.Ensures.pure (Or.inr ⟨s, r, hr, ((Frame.flushes_append _ _ _).mp hf).1, rfl⟩)

end Idempotency

end ApexPayments.Payments
