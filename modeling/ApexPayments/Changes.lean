import ApexPayments.Ownership

/-!
The service as a system of business events. A committed transaction is a sequence
of changes: claims and records that move no money, payments opened, settled,
reversed or set waiting, refunds, and direct posts. An invariant of the changes is
an invariant of every run.
-/
namespace ApexPayments.Service

open Domain Store Ledger Payments Webhooks Relay RowLocking

section Changes

/-- The tables that carry money and payments are the same. -/
def SameBooks (s s' : Database) : Prop :=
  s' = { s with idempotencyKeys := s'.idempotencyKeys, webhookEvents := s'.webhookEvents }

/-- One business event, for calls that meet `P`; `used` are the identifiers drawn so far. -/
inductive Change (P : Call → Prop) (s : Database) (used : List Uuid) :
    Database → List Uuid → Prop
  | booked (s' : Database) (ids : List Uuid) (h : SameBooks s s') : Change P s used s' (ids ++ used)
  | opened (k : String) (req : CreatePaymentRequest) (createdAt : Time) (p : Payment)
      (txn : LedgerTransaction) (event : Outbox) (s' : Database) (hP : P (.create k req))
      (hp : p = held (newPayment p.id req createdAt)) (hfresh : s.payments.find? p.id = none)
      (hid : p.id ∉ used) (htxn : txn.id ∉ p.id :: used) (hevent : event.id ∉ txn.id :: p.id :: used)
      (h : Transferred (holdOf p) txn event (s.put (.payment p)) s') :
      Change P s used s' (event.id :: txn.id :: p.id :: used)
  | moved (p q : Payment) (ids : List Uuid) (s' : Database)
      (hfound : s.payments.find? p.id = some p)
      (hguard : p.status = .processing ∨ p.status = .authorized)
      (h : Moved used s p q ids s') : Change P s used s' (ids ++ used)
  | refunded (p : Payment) (r : Refund) (txn : LedgerTransaction) (event : Outbox)
      (s' : Database) (createdAt : Time) (hamount : 0 < r.amount)
      (hr : r = ⟨r.id, p.id, r.amount, .succeeded, createdAt⟩)
      (hfound : s.payments.find? p.id = some p)
      (hstatus : p.status = .succeeded ∨ p.status = .refundPending)
      (hcap : p.refundedAmount + r.amount ≤ p.amount)
      (hfresh : s.refunds.find? r.id = none) (hid : r.id ∉ used) (htxn : txn.id ∉ r.id :: used)
      (hevent : event.id ∉ txn.id :: r.id :: used)
      (h : Transferred (refundOf p r) txn event
        ((s.put (.refund r)).put (.payment (refunded r.amount p))) s') :
      Change P s used s' (event.id :: txn.id :: r.id :: used)
  | posted (type : TransactionType) (referenceId : Uuid) (postings : List Posting)
      (txn : LedgerTransaction) (s' : Database) (hP : P (.post type referenceId postings))
      (htype : txn.type = type) (href : txn.referenceId = referenceId) (htxn : txn.id ∉ used)
      (h : Posted s s' txn postings) : Change P s used s' (txn.id :: used)
  | published (ev : Outbox) (t : Time) (hfound : s.outbox.find? ev.id = some ev)
      (hnew : ev.publishedAt = none) : Change P s used (s.put (.outbox (publish t ev))) used

/-- Changes one after the other. -/
inductive Changes (P : Call → Prop) (s : Database) (used : List Uuid) :
    Database → List Uuid → Prop
  | refl : Changes P s used s used
  | tail (s₁ : Database) (used₁ : List Uuid) (s₂ : Database) (used₂ : List Uuid)
      (h : Changes P s used s₁ used₁) (hstep : Change P s₁ used₁ s₂ used₂) :
      Changes P s used s₂ used₂

variable {P : Call → Prop} {s s' s'' : Database} {used used' used'' : List Uuid}

theorem Changes.trans (h : Changes P s used s' used') (h' : Changes P s' used' s'' used'') :
    Changes P s used s'' used'' := by
  induction h' with
  | refl => exact h
  | tail s₁ used₁ s₂ used₂ _ hstep ih => exact .tail _ _ _ _ ih hstep

theorem Changes.single (h : Change P s used s' used') : Changes P s used s' used' :=
  .tail _ _ _ _ .refl h

theorem Changes.invariant {Inv : Database → List Uuid → Prop}
    (hstep : ∀ s used s' used', Inv s used → Change P s used s' used' → Inv s' used')
    (h : Changes P s used s' used') (hinv : Inv s used) : Inv s' used' := by
  induction h with
  | refl => exact hinv
  | tail s₁ used₁ s₂ used₂ _ hc ih => exact hstep _ _ _ _ ih hc

/-- The ledger and the balances are the same. -/
structure SameLedger (s s' : Database) : Prop where
  accounts : s'.accounts = s.accounts
  balances : s'.accountBalances = s.accountBalances
  txns : s'.ledgerTransactions = s.ledgerTransactions
  entries : s'.ledgerEntries = s.ledgerEntries

theorem SameLedger.refl (s : Database) : SameLedger s s := ⟨rfl, rfl, rfl, rfl⟩

/-- One ledger transaction is posted, whatever else is written. -/
def Posts (s s' : Database) (txn : LedgerTransaction) (postings : List Posting) : Prop :=
  ∃ s₁ s₂, SameLedger s s₁ ∧ Posted s₁ s₂ txn postings ∧ SameLedger s₂ s'

theorem posts_of_transferred {t : Transfer} {txn : LedgerTransaction} {event : Outbox}
    {s₀ : Database} (h : Transferred t txn event s₀ s') (hs : SameLedger s s₀) :
    Posts s s' txn t.postings := by
  obtain ⟨s₁, hp, rfl⟩ := h.posted
  exact ⟨s₀, s₁, hs, hp, ⟨rfl, rfl, rfl, rfl⟩⟩

theorem Moved.ledger {ids : List Uuid} {p q : Payment} (h : Moved used s p q ids s') :
    SameLedger s s' ∨ ∃ txn postings, Posts s s' txn postings := by
  cases h with
  | settled r txn event _ ht he h =>
    exact Or.inr ⟨txn, _, posts_of_transferred h ⟨rfl, rfl, rfl, rfl⟩⟩
  | reversed txn event _ ht he h =>
    exact Or.inr ⟨txn, _, posts_of_transferred h ⟨rfl, rfl, rfl, rfl⟩⟩
  | awaiting r => exact Or.inl ⟨rfl, rfl, rfl, rfl⟩

/-- Every change posts one transaction or leaves the ledger alone. -/
theorem Change.ledger (h : Change P s used s' used') :
    SameLedger s s' ∨ ∃ txn postings, Posts s s' txn postings := by
  cases h with
  | booked _ ids hs =>
    unfold SameBooks at hs
    rw [hs]
    exact Or.inl ⟨rfl, rfl, rfl, rfl⟩
  | opened k req createdAt p txn event _ hP hp hfresh hid htxn hevent h =>
    exact Or.inr ⟨txn, _, posts_of_transferred h ⟨rfl, rfl, rfl, rfl⟩⟩
  | moved p q ids _ hfound hguard h => exact h.ledger
  | refunded p r txn event _ createdAt hamount hr hfound hstatus hcap hfresh hid htxn hevent h =>
    exact Or.inr ⟨txn, _, posts_of_transferred h ⟨rfl, rfl, rfl, rfl⟩⟩
  | posted type referenceId postings txn _ hP htype href htxn h =>
    exact Or.inr ⟨txn, postings, s, s', SameLedger.refl s, h, SameLedger.refl s'⟩
  | published ev t hfound hnew => exact Or.inl ⟨rfl, rfl, rfl, rfl⟩

theorem changes_of_reversedAll {ps : List Payment} (h : ReversedAll ps s used s' used')
    (hst : ∀ p ∈ ps, p.status = .authorized) : Changes P s used s' used' := by
  induction h with
  | nil s used => exact .refl
  | cons p ps s used ids s₁ s₂ used₂ found moved rest ih =>
    have hp := hst p (List.mem_cons_self ..)
    exact (Changes.single (.moved p _ ids s₁ found (Or.inr hp) moved)).trans
      (ih fun q hq => hst q (List.mem_cons_of_mem _ hq))

end Changes

section Refinement

variable {P : Call → Prop} {ext : Externals} {skips : Key → Prop} {a : Moment} {pid : ℕ} {h : Head}

theorem booked_record (s : Database) (r : IdempotencyRecord) :
    SameBooks s (s.put (.idempotencyRecord r)) := rfl

/-- A transfer on top of a claimed key is a transfer, and the claim can come first. -/
theorem changes_of_committed (hinv : Owned ext a) (hp : a.heads pid = some h) (hP : P h.call)
    {next : Program Reply} {L : Session backend}
    (hc : Committed ext (a.frame Older skips h) h next L) :
    Changes P a.db a.spent (view a.db L.flushed) (L.drawn ++ a.spent) := by
  cases hc with
  | replayed k req r resp hcall ht hrep =>
    rw [hrep.flushed]
    exact .single (.booked _ L.drawn rfl)
  | opened k req p txn event hcall ht ho =>
    obtain ⟨createdAt, hmade⟩ := ho.payment
    have hclaim : Change P a.db a.spent _ ([] ++ a.spent) := .booked _ []
      (booked_record a.db (inProgress req.merchantId k (ext.hash (.create req))))
    have hused : L.drawn ++ a.spent = event.id :: txn.id :: p.id :: a.spent := ho.used
    have hopen : Change P (a.db.put (.idempotencyRecord (inProgress req.merchantId k
        (ext.hash (.create req))))) ([] ++ a.spent) (view a.db L.flushed)
        (event.id :: txn.id :: p.id :: a.spent) :=
      .opened k req createdAt p txn event _ (hcall ▸ hP) hmade ho.payment_fresh ho.id_unspent
        ho.txn_unused ho.event_unused ho.effect
    rw [hused]
    exact (Changes.single hclaim).trans (.single hopen)
  | resolved k req p p' ws result hcall hws ht hres =>
    have howned := owned_answered hcall hws ht
    have hold := hinv.holds pid h k req p hp hcall (openedBy_of_owned howned)
    obtain ⟨hpay, _⟩ := hold.unresolved howned
    obtain ⟨rfl, ids, s₁, hmoved, hused, hview⟩ := resolves_owned hinv hp hcall howned hres
    have hst : p'.status = .processing := by
      obtain ⟨t, ht⟩ := hold.made
      rw [ht]
      rfl
    have hmove := Change.moved (P := P) p' _ ids s₁ hpay (Or.inl hst) hmoved
    rw [hused, hview]
    exact (Changes.single hmove).trans (.single (.booked _ [] (booked_record _ _)))
  | refundReplayed k id req hcall ht hr =>
    rw [hr.1]
    exact .single (.booked _ L.drawn rfl)
  | refunded k id req p r txn event hcall ht hr =>
    obtain ⟨s₁, htrans, hview⟩ := hr.effect
    obtain ⟨createdAt, hmade⟩ := hr.refund
    have hid : p.id = id := Table.key_of_find? hr.found
    have hamount : r.amount = req.amount := by rw [hmade]
    have hfound : a.db.payments.find? p.id = some p := by
      rw [hid]
      exact hr.found
    rw [← hamount] at htrans hview hmade
    have hclaim : Change P a.db a.spent _ ([] ++ a.spent) := .booked _ []
      (booked_record a.db (inProgress "merchant_refund" k (ext.hash (.refund id r.amount))))
    have hpos : 0 < r.amount := hamount ▸ req.amount_pos
    have hcap : p.refundedAmount + r.amount ≤ p.amount := hamount ▸ hr.capped
    have hrefund : Change P (a.db.put (.idempotencyRecord (inProgress "merchant_refund" k
        (ext.hash (.refund id r.amount))))) ([] ++ a.spent) s₁
        (event.id :: txn.id :: r.id :: a.spent) :=
      .refunded p r txn event s₁ createdAt hpos hmade hfound hr.allowed hcap hr.refund_fresh
        hr.id_unspent hr.txn_unused hr.event_unused htrans
    have hused : L.drawn ++ a.spent = event.id :: txn.id :: r.id :: a.spent := hr.used
    have hview' : view a.db L.flushed = _ := hview
    rw [hused, hview']
    exact ((Changes.single hclaim).trans (.single hrefund)).trans
      (.single (.booked _ [] (booked_record _ _)))
  | webhook rawBody signature event eventId i hcall ht hw hpend =>
    rcases hw.effect with hfl | hrec
    · rw [hfl]
      exact .single (.booked _ L.drawn rfl)
    · have hview : view a.db L.flushed = (a.frame Older skips h).working L :=
        (Frame.working_of_pending (F := a.frame Older skips h) L hpend).symm
      have hused : L.drawn ++ a.spent = usedBy (a.frame Older skips h) L := rfl
      have hevent : Changes P a.db a.spent
          (a.db.put (.webhookEvent ⟨eventId, rawBody, .processed⟩)) (i :: a.spent) :=
        .single (.booked _ [i] rfl)
      rw [hview, hused]
      cases hrec.applied with
      | unreferenced hfalsy hwork husd =>
        rw [hwork, husd]
        exact hevent
      | looked reference store ps href hne hlook hsnap htrans =>
        generalize (a.frame Older skips h).working L = s₁ at htrans ⊢
        generalize usedBy (a.frame Older skips h) L = used₁ at htrans ⊢
        have hcur : ∀ p ∈ ps, a.db.payments.find? p.id = some p := fun p hp =>
          (hlook.current p hp).2
        cases htrans with
        | idle hidle => exact hevent
        | captured p ids s' hps hst hkind hmoved =>
          exact hevent.trans (.single (.moved p _ ids _ (hcur p (hps ▸ List.mem_singleton_self p))
            (Or.inr hst) hmoved))
        | failed p ids s' hps hst hkind hmoved =>
          exact hevent.trans (.single (.moved p _ ids _ (hcur p (hps ▸ List.mem_singleton_self p))
            (Or.inr hst) hmoved))
  | expired timeoutMinutes ps hcall ht he =>
    exact changes_of_reversedAll he.reversed fun p hp => (he.stale p hp).1
  | posted type referenceId postings txn hcall ht hpost =>
    have hused : L.drawn ++ a.spent = txn.id :: a.spent := hpost.used
    rw [hused]
    exact .single (.posted type referenceId postings txn _ (hcall ▸ hP) hpost.type
      hpost.reference hpost.unspent hpost.posted)
  | drained batchSize evs t hcall ht hd =>
    obtain ⟨s, order, hdrawn⟩ := hd.select
    rw [hd.flushed, hd.drawn]
    exact publishAll_induction (R := fun s s' => Changes P s a.spent s' a.spent)
      (fun _ => .refl) (fun _ _ _ => Changes.trans) t
      (fun _ ev hfound hnew => .single (.published ev t hfound hnew)) hdrawn.nodup hdrawn.current

/-- Only calls that meet a condition are started. -/
def Starts (P : Call → Prop) (_ : State) : Label backend Call → Prop
  | .start _ c => P c
  | _ => True

def StartsAct (P : Call → Prop) (_ : Moment) : Atomic.Act backend Call → Prop
  | .start _ c => P c
  | _ => True

/-- Any row may be passed over. -/
def anyKey (_ : Key) : Prop := True

theorem skipsOnly_anyKey {ok : State → Label backend Call → Prop} {σ₀ : State} :
    ∀ σ l, System.Run (program ext) ok σ₀ σ → ok σ l → System.SkipsOnly anyKey σ l :=
  fun _ _ _ _ _ _ _ _ _ => trivial

/-- What holds in every state that the service reaches. -/
structure Running (ext : Externals) (P : Call → Prop) (skips : Key → Prop) (σ : State) : Prop where
  sound : System.Sound Older skips σ
  owned : Owned ext σ.toAtomic
  calls : ∀ pid h, σ.toAtomic.heads pid = some h → P h.call

theorem running_initial (db : Database) (spent : List Uuid) :
    Running ext P skips (System.initial db spent) := by
  refine ⟨System.sound_initial (B := backend) db spent, ⟨?_, ?_, ?_, ?_⟩, ?_⟩
  · intro pid h hp
    contradiction
  · intro pid h k req p hp
    contradiction
  · intro pid pid' h h' p p' hp
    contradiction
  · intro pid pid' h h' k req req' p p' hp
    contradiction
  · intro pid h hp
    contradiction

theorem owned_of_reach {allowed : Moment → Atomic.Act backend Call → Prop} {a₀ : Moment}
    (h₀ : Owned ext a₀) (h : Atomic.Reach (program ext) allowed Older skips a₀ a) : Owned ext a := by
  induction h with
  | refl => exact h₀
  | tail _ hstep ih =>
    obtain ⟨act, hs, _⟩ := hstep
    exact (owned_step ih hs).1

theorem older_of_reach {allowed : Moment → Atomic.Act backend Call → Prop} {a₀ : Moment}
    (h₀ : Owned ext a₀) (h : Atomic.Reach (program ext) allowed Older skips a₀ a) :
    Older a₀.db a.db := by
  induction h with
  | refl => exact Older.refl _
  | tail hreach hstep ih =>
    obtain ⟨act, hs, _⟩ := hstep
    exact ih.trans (owned_step (owned_of_reach h₀ hreach) hs).2

theorem startsAct_of_stepped {σ : State} {l : Label backend Call} {act : Atomic.Act backend Call}
    {σ' : State} (hok : Starts P σ l) (hs : System.Stepped (program ext) σ l (some act) σ') :
    StartsAct P σ.toAtomic act := by
  cases hs with
  | start pid c hp => exact hok
  | _ => trivial

/-- One step keeps all calls in progress within the condition. -/
theorem calls_of_step {a' : Moment} {act : Atomic.Act backend Call}
    (hs : Atomic.Step (program ext) Older skips a act a') (hallowed : StartsAct P a act)
    (hcalls : ∀ pid h, a.heads pid = some h → P h.call) :
    ∀ pid h, a'.heads pid = some h → P h.call := by
  intro pid' h' hp'
  cases hs with
  | start pid c hp =>
    rcases Atomic.heads_put hp' with ⟨rfl, rfl⟩ | ⟨_, hp'⟩
    · exact hallowed
    · exact hcalls pid' h' hp'
  | call pid h q next ans L hp ho hr =>
    rcases Atomic.heads_put hp' with ⟨rfl, rfl⟩ | ⟨_, hp'⟩
    · exact hcalls _ h hp
    · exact hcalls pid' h' hp'
  | commit pid h next L hp ho hr =>
    rcases Atomic.heads_put hp' with ⟨rfl, rfl⟩ | ⟨_, hp'⟩
    · exact hcalls _ h hp
    · exact hcalls pid' h' hp'
  | fail pid h e hp ho hr hv he =>
    rcases Atomic.heads_put hp' with ⟨rfl, rfl⟩ | ⟨_, hp'⟩
    · exact hcalls _ h hp
    · exact hcalls pid' h' hp'

theorem calls_of_reach {allowed : Moment → Atomic.Act backend Call → Prop} {a₀ : Moment}
    (hstarts : ∀ a act, allowed a act → StartsAct P a act)
    (h₀ : ∀ pid h, a₀.heads pid = some h → P h.call)
    (h : Atomic.Reach (program ext) allowed Older skips a₀ a) :
    ∀ pid h, a.heads pid = some h → P h.call := by
  induction h with
  | refl => exact h₀
  | tail _ hstep ih =>
    obtain ⟨act, hs, hallowed⟩ := hstep
    exact calls_of_step hs (hstarts _ _ hallowed) ih

/-- Runs of the service are runs of its whole transactions. -/
theorem reach_of_service {ok : State → Label backend Call → Prop}
    {allowed : Moment → Atomic.Act backend Call → Prop} {σ₀ σ : State}
    (hstarts : ∀ a act, allowed a act → StartsAct P a act)
    (hallowed : ∀ σ l act σ', ok σ l → System.Stepped (program ext) σ l (some act) σ' →
      allowed σ.toAtomic act)
    (hskips : ∀ σ l, System.Run (program ext) ok σ₀ σ → ok σ l → System.SkipsOnly skips σ l)
    (h₀ : Running ext P skips σ₀) (h : System.Run (program ext) ok σ₀ σ) :
    Running ext P skips σ ∧ Atomic.Reach (program ext) allowed Older skips σ₀.toAtomic σ.toAtomic := by
  have hmono : ∀ a act a', Atomic.Reach (program ext) allowed Older skips σ₀.toAtomic a →
      Atomic.Step (program ext) Older skips a act a' → Older a.db a'.db :=
    fun _ _ _ hr hs => (owned_step (owned_of_reach h₀.owned hr) hs).2
  have htrans : ∀ s t u, Older s t → Older t u → Older s u := fun _ _ _ => Older.trans
  obtain ⟨hsound, hreach⟩ := System.reach_of_run Older.refl htrans hallowed hmono hskips
    h₀.sound h
  exact ⟨⟨hsound, owned_of_reach h₀.owned hreach, calls_of_reach hstarts h₀.calls hreach⟩, hreach⟩

/-- Every whole transaction is a sequence of changes. -/
theorem changes_of_step {a' : Moment} {act : Atomic.Act backend Call} (hinv : Owned ext a)
    (hcalls : ∀ pid h, a.heads pid = some h → P h.call)
    (hs : Atomic.Step (program ext) Older skips a act a') : Changes P a.db a.spent a'.db a'.spent := by
  cases hs with
  | start pid c hp => exact .refl
  | call pid h q next ans L hp ho hr => exact .refl
  | commit pid h next L hp ho hr =>
    exact changes_of_committed hinv hp (hcalls pid h hp)
      (committed_of_stage (hinv.stage pid h hp) hr)
  | fail pid h e hp ho hr hv he => exact .refl

theorem changes_of_reach {allowed : Moment → Atomic.Act backend Call → Prop} {a₀ : Moment}
    (hstarts : ∀ a act, allowed a act → StartsAct P a act) (h₀ : Owned ext a₀)
    (hcalls : ∀ pid h, a₀.heads pid = some h → P h.call)
    (h : Atomic.Reach (program ext) allowed Older skips a₀ a) :
    Changes P a₀.db a₀.spent a.db a.spent := by
  induction h with
  | refl => exact .refl
  | tail hreach hstep ih =>
    obtain ⟨act, hs, _⟩ := hstep
    exact ih.trans (changes_of_step (owned_of_reach h₀ hreach)
      (calls_of_reach hstarts hcalls hreach) hs)

/-- What a run commits is a sequence of changes. -/
theorem changes_of_run {σ₀ σ : State} (h₀ : Running ext P anyKey σ₀)
    (h : System.Run (program ext) (Starts P) σ₀ σ) :
    Running ext P anyKey σ ∧ Changes P σ₀.db σ₀.spent σ.db σ.spent := by
  obtain ⟨hrunning, hreach⟩ := reach_of_service (fun _ _ h => h)
    (fun _ _ _ _ => startsAct_of_stepped) skipsOnly_anyKey h₀ h
  exact ⟨hrunning, changes_of_reach (fun _ _ h => h) h₀.owned h₀.calls hreach⟩

/-- The trigger of the ledger lets the session commit. -/
def Untripped (s : Database) (L : Session backend) : Prop :=
  (view s L.flushed).assertLedgerBalanced (L.flushed.filterMap Write.inserted) = none

/-- A step changes rows only by committing the transaction of a process. -/
theorem db_of_step {σ σ' : State} (h : Running ext P skips σ) {l : Label backend Call}
    (hl : σ.step (program ext) l = some σ') :
    σ'.db = σ.db ∨ ∃ pid o p next, l = .run pid o ∧ σ.procs pid = some p ∧ p.prog = .commit next ∧
      Untripped σ.db p.session ∧
      Committed ext (σ.toAtomic.frame Older skips p.toHeader) p.toHeader next p.session ∧
      σ'.db = view σ.db p.session.flushed := by
  obtain ⟨act, hs⟩ := System.stepped_of_step hl
  cases hs with
  | commit pid o p next hp hq hL hd =>
    have hruns := System.runs_of_commit h.sound hp hq hL hd
    have hstage := h.owned.stage pid p.toHeader (System.toAtomic_heads hp)
    exact Or.inr ⟨pid, o, p, next, rfl, hp, hq, hd, committed_of_stage hstage hruns, rfl⟩
  | _ => exact Or.inl rfl

theorem starts_sample {c : Call} {pid first n : ℕ} {result : Except String AuthorizationResult}
    {t : Time} (hP : P c) : ∀ l ∈ Label.start pid c :: sampleSteps pid first n result t,
      ∀ σ, Starts P σ l := by
  intro l hl σ
  rcases List.mem_cons.mp hl with rfl | hl
  · exact hP
  · obtain ⟨i, _, rfl⟩ := List.mem_map.mp hl
    trivial

theorem starts_append {ls ls' : List (Label backend Call)} (h : ∀ l ∈ ls, ∀ σ, Starts P σ l)
    (h' : ∀ l ∈ ls', ∀ σ, Starts P σ l) : ∀ l ∈ ls ++ ls', ∀ σ, Starts P σ l := fun l hl =>
  (List.mem_append.mp hl).elim (h l) (h' l)

/-- An invariant of the business events holds in every committed state of every run. -/
theorem invariant_of_run {Inv : Database → List Uuid → Prop} {db : Database} {spent : List Uuid}
    {σ : State}
    (hstep : ∀ s used s' used', Inv s used → Change P s used s' used' → Inv s' used')
    (hinit : Inv db spent)
    (h : System.Run (program ext) (Starts P) (System.initial db spent) σ) : Inv σ.db σ.spent :=
  (changes_of_run (running_initial db spent) h).2.invariant hstep hinit

end Refinement

section Failures

variable {P : Call → Prop} {ext : Externals} {skips : Key → Prop} {F : Frame backend}

/-- A committed transaction leaves a value or the call of the provider to do. -/
theorem next_of_committed {h : Head} {next : Program Reply} {L : Session backend}
    (hc : Committed ext F h next L) :
    (∃ v, next = pure v) ∨ ∃ k req p, next = afterHold k req p := by
  cases hc with
  | replayed k req r resp hc ht hr => exact Or.inl ⟨_, hr.next⟩
  | opened k req p txn event hc ht ho => exact Or.inr ⟨k, req, p, ho.next⟩
  | resolved k req p p' ws result hc hws ht hr => exact Or.inl ⟨_, hr.next⟩
  | refundReplayed k id req hc ht hr =>
    obtain ⟨_, code, resp, hnext⟩ := hr
    exact Or.inl ⟨_, hnext⟩
  | refunded k id req p r txn event hc ht hr => exact Or.inl ⟨_, hr.next⟩
  | webhook rawBody signature event eventId i hc ht hw hp => exact Or.inl ⟨_, hw.next⟩
  | expired timeoutMinutes ps hc ht he => exact Or.inl ⟨_, he.next⟩
  | posted type referenceId postings txn hc ht hp => exact Or.inl ⟨_, hp.next⟩
  | drained batchSize evs t hc ht hd => exact Or.inl ⟨_, hd.next⟩

/-- What is known of every failing transaction is known of every error that a call
has raised, apart from cancellations and errors of the provider. -/
theorem raised_of_reach {allowed : Moment → Atomic.Act backend Call → Prop} {a₀ a : Moment}
    (R : Call → List (RowLocking.Event backend) → Exn → Prop)
    (hfail : ∀ a pid h e, Atomic.Reach (program ext) allowed Older skips a₀ a → a.heads pid = some h →
      Failing ext (a.frame Older skips h) h e → R h.call h.trace e)
    (hcancelled : ∀ c trace, R c trace .cancelled)
    (hprovider : ∀ c trace message, R c trace (.runtimeError message)) (howned : Owned ext a₀)
    (h₀ : ∀ pid h e, a₀.heads pid = some h → h.base = .raise e → R h.call h.trace e)
    (hreach : Atomic.Reach (program ext) allowed Older skips a₀ a) :
    ∀ pid h e, a.heads pid = some h → h.base = .raise e → R h.call h.trace e := by
  have hput : ∀ (a : Moment) (pid : ℕ) (h' : Head),
      (∀ e, h'.base = .raise e → R h'.call h'.trace e) →
      (∀ pid h e, a.heads pid = some h → h.base = .raise e → R h.call h.trace e) →
      ∀ pid₂ h₂ e, (a.put pid h').heads pid₂ = some h₂ → h₂.base = .raise e →
        R h₂.call h₂.trace e := by
    intro a pid h' hR hall pid₂ h₂ e hp₂ hb
    rcases Atomic.heads_put hp₂ with ⟨_, rfl⟩ | ⟨_, hp₂⟩
    · exact hR e hb
    · exact hall pid₂ h₂ e hp₂ hb
  induction hreach with
  | refl => exact h₀
  | @tail a₁ a₂ hreach hstep ih =>
    have howned₁ := owned_of_reach howned hreach
    have hreach₂ := hreach.tail hstep
    obtain ⟨act, hs, _⟩ := hstep
    cases hs with
    | start pid c hp =>
      refine hput _ pid _ ?_ ih
      intro e hb
      refine hfail _ pid _ e hreach₂ (by simp [Atomic.put]) ?_
      refine @start_ensures _ ext ⟨c, a₁.db, program ext c, []⟩ rfl
        (.raised e (.fresh backend)) ?_
      change program ext c = .raise e at hb
      rw [hb]
      rfl
    | call pid h q next ans L hp ho hr =>
      refine hput _ pid _ ?_ ih
      intro e hb
      obtain ⟨k, req, p, ws, hc, hbase, ht, hws⟩ := calling_of_stage (howned₁.stage pid h hp) hr
      rw [hbase] at hr
      cases hr
      rcases ans with message | result
      · cases hb
        exact hprovider _ _ message
      · refine hfail _ pid _ e hreach₂ (by simp [Atomic.put]) ?_
        have htrace : h.trace ++ [.answered (.authorize p) (.ok result)] =
            [.committed ws, .answered (.authorize p) (.ok result)] := by rw [ht]; rfl
        refine @answered_ensures _ ext (h.resume a₁.db _ _) k req p ws result hc hws htrace
          (.raised e (.fresh backend)) ?_
        change resolve k req p.id result = .raise e at hb
        rw [hb]
        rfl
    | commit pid h next L hp ho hr =>
      refine hput _ pid _ ?_ ih
      intro e hb
      change next = .raise e at hb
      rcases next_of_committed (committed_of_stage (howned₁.stage pid h hp) hr) with
        ⟨v, rfl⟩ | ⟨k, req, p, rfl⟩ <;> contradiction
    | fail pid h e hp ho hr hv he =>
      refine hput _ pid _ ?_ ih
      intro e' hb
      cases hb
      change R h.call (h.trace ++ []) e
      rw [List.append_nil]
      rcases hr with rfl | ⟨L, hr⟩
      · exact hcancelled _ _
      · exact hfail a₁ pid h e hreach hp (failing_of_stage (howned₁.stage pid h hp) he hr)

end Failures

end ApexPayments.Service
