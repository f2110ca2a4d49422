import ApexPayments.KeyScopes
import ApexPayments.Publishing

/-!
Why a payment is in its status. A payment leaves PROCESSING only by an answer of the provider to
the call that has opened it, and AUTHORIZED only by a signed webhook for its reference or by the
expiry of its hold. So no payment succeeds unless the provider has said so.
-/
namespace ApexPayments.Service

open Domain Store Ledger Payments Webhooks Relay RowLocking

section Definitions

variable {ext : Externals}

/-- The provider was asked about the payment `p₀`, by the call that had opened it, and has given
the answer `r`. -/
def AnsweredWith (σ : State) (p₀ : Payment) (r : AuthorizationResult) : Prop :=
  ∃ pid p k req ws rest, σ.procs pid = some p ∧ p.call = .create k req ∧
    insertedPayments ws = [p₀] ∧
    p.trace = .committed ws :: .answered (.authorize p₀) (.ok r) :: rest

/-- A webhook with a valid signature has been carried out whose event is of the kind and has the
reference. -/
def Reported (ext : Externals) (σ : State) (reference : String) (kind : EventKind) : Prop :=
  ∃ pid p rawBody signature data fresh event, σ.procs pid = some p ∧
    p.call = .webhook rawBody signature ∧ Wrote p.trace ∧
    signatureIsValid ext rawBody signature = .ok true ∧ ext.loads rawBody = some data ∧
    parseEvent fresh data = .ok event ∧ event.pspReference = .str reference ∧
    kindOf event.eventType = .ok (some kind)

/-- An expiry of stale holds has been carried out. -/
def HasExpired (σ : State) : Prop :=
  ∃ pid p timeoutMinutes, σ.procs pid = some p ∧ p.call = .expire timeoutMinutes ∧ Wrote p.trace

/-- What follows the answer `r` for the status and the reference of a payment. -/
inductive Justified (ext : Externals) (σ : State) (r : AuthorizationResult) (p : Payment) : Prop
  | captured (hout : r.outcome = .captured) (hst : p.status = .succeeded ∨ p.status = .refunded)
      (href : p.pspReference = some (r.pspReference.getD ""))
  | declined (hout : r.outcome = .declined) (hst : p.status = .failed) (href : p.pspReference = none)
  | pending (hout : r.outcome = .pending) (hst : p.status = .authorized)
      (href : p.pspReference = r.pspReference)
  | capturedLater (reference : String) (hout : r.outcome = .pending)
      (hreported : Reported ext σ reference .capture)
      (hst : p.status = .succeeded ∨ p.status = .refunded) (href : p.pspReference = some reference)
      (hr : r.pspReference = some reference)
  | failedLater (reference : String) (hout : r.outcome = .pending)
      (hreported : Reported ext σ reference .failure) (hst : p.status = .failed)
      (href : p.pspReference = some reference) (hr : r.pspReference = some reference)
  | expired (hout : r.outcome = .pending) (hexpired : HasExpired σ) (hst : p.status = .failed)
      (href : p.pspReference = r.pspReference)

/-- The payment as it was when it was opened. -/
def Opened (p₀ p : Payment) : Prop :=
  p₀ = { p with status := .processing, pspReference := none, refundedAmount := 0, version := 0 }

/-- A payment is as it was opened, or its status follows from an answer of the provider. -/
inductive Grounds (ext : Externals) (σ : State) (p : Payment) : Prop
  | opened (hp : Opened p p)
  | answered (p₀ : Payment) (r : AuthorizationResult) (hp : Opened p₀ p) (hr : AnsweredWith σ p₀ r)
      (hj : Justified ext σ r p)

end Definitions

section Growth

variable {ext : Externals} {σ σ' : State} {l : Label backend Call} {p p₀ : Payment}
  {r : AuthorizationResult} {reference : String} {kind : EventKind}

theorem Wrote.append {t : List (RowLocking.Event backend)} (h : Wrote t)
    (es : List (RowLocking.Event backend)) : Wrote (t ++ es) := by
  obtain ⟨ws, hws, hne⟩ := h
  exact ⟨ws, List.mem_append_left es hws, hne⟩

/-- A process goes on with its call and adds to its history. -/
theorem proc_of_step (hl : σ.step (program ext) l = some σ') {pid : ℕ}
    {p : Process backend Call Reply} (hp : σ.procs pid = some p) :
    ∃ p', σ'.procs pid = some p' ∧ p'.call = p.call ∧ ∃ es, p'.trace = p.trace ++ es := by
  obtain ⟨act, hs⟩ := System.stepped_of_step hl
  obtain ⟨p', hp', htrace⟩ := System.trace_of_stepped hs hp
  exact ⟨p', hp', System.call_of_stepped hs hp hp', htrace⟩

theorem AnsweredWith.step (h : AnsweredWith σ p₀ r) (hl : σ.step (program ext) l = some σ') :
    AnsweredWith σ' p₀ r := by
  obtain ⟨pid, p, k, req, ws, rest, hp, hcall, hws, htrace⟩ := h
  obtain ⟨p', hp', hcall', es, htrace'⟩ := proc_of_step hl hp
  refine ⟨pid, p', k, req, ws, rest ++ es, hp', hcall'.trans hcall, hws, ?_⟩
  rw [htrace', htrace]
  rfl

theorem Reported.step (h : Reported ext σ reference kind) (hl : σ.step (program ext) l = some σ') :
    Reported ext σ' reference kind := by
  obtain ⟨pid, p, rawBody, signature, data, fresh, event, hp, hcall, hwrote, hevent⟩ := h
  obtain ⟨p', hp', hcall', es, htrace⟩ := proc_of_step hl hp
  refine ⟨pid, p', rawBody, signature, data, fresh, event, hp', hcall'.trans hcall, ?_, hevent⟩
  rw [htrace]
  exact hwrote.append es

theorem HasExpired.step (h : HasExpired σ) (hl : σ.step (program ext) l = some σ') :
    HasExpired σ' := by
  obtain ⟨pid, p, timeoutMinutes, hp, hcall, hwrote⟩ := h
  obtain ⟨p', hp', hcall', es, htrace⟩ := proc_of_step hl hp
  refine ⟨pid, p', timeoutMinutes, hp', hcall'.trans hcall, ?_⟩
  rw [htrace]
  exact hwrote.append es

theorem Grounds.step (h : Grounds ext σ p) (hl : σ.step (program ext) l = some σ') :
    Grounds ext σ' p := by
  cases h with
  | opened hp => exact .opened hp
  | answered p₀ r hp hr hj =>
    refine .answered p₀ r hp (hr.step hl) ?_
    cases hj with
    | captured hout hst href => exact .captured hout hst href
    | declined hout hst href => exact .declined hout hst href
    | pending hout hst href => exact .pending hout hst href
    | capturedLater reference hout hreported hst href hr =>
      exact .capturedLater reference hout (hreported.step hl) hst href hr
    | failedLater reference hout hreported hst href hr =>
      exact .failedLater reference hout (hreported.step hl) hst href hr
    | expired hout hexpired hst href => exact .expired hout (hexpired.step hl) hst href

/-- A payment that is authorized has been left pending by the provider. -/
theorem Grounds.of_authorized (h : Grounds ext σ p) (hst : p.status = .authorized) :
    ∃ p₀ r, Opened p₀ p ∧ AnsweredWith σ p₀ r ∧ r.outcome = .pending ∧
      p.pspReference = r.pspReference := by
  cases h with
  | opened hp =>
    have hprocessing : p.status = .processing := congrArg Payment.status hp
    rw [hst] at hprocessing
    contradiction
  | answered p₀ r hp hr hj =>
    cases hj with
    | pending hout _ href => exact ⟨p₀, r, hp, hr, hout, href⟩
    | captured _ hst' _ | capturedLater _ _ _ hst' _ _ =>
      rw [hst] at hst'
      rcases hst' with h | h <;> contradiction
    | declined _ hst' _ | failedLater _ _ _ hst' _ _ | expired _ _ hst' _ =>
      rw [hst] at hst'
      contradiction

end Growth

section Commits

variable {ext : Externals} {F : Frame backend} {h : Head} {next : Program Reply} {L : Session backend}
  {q : Payment}

/-- A webhook without a valid signature is refused. -/
theorem signed_of_commits {rawBody signature : String}
    (h : (program ext (.webhook rawBody signature)).Runs F (.fresh backend) (.committed next L)) :
    signatureIsValid ext rawBody signature = .ok true := by
  by_contra hnot
  have hraises : ∃ e, program ext (.webhook rawBody signature) = .raise e := by
    unfold program handle
    dsimp only
    by_cases hempty : signature = ""
    · rw [if_pos hempty]
      exact ⟨.invalidSignature, rfl⟩
    · rw [if_neg hempty]
      cases hvalid : signatureIsValid ext rawBody signature with
      | error e => exact ⟨e, rfl⟩
      | ok isValid =>
        cases isValid with
        | true => exact absurd hvalid hnot
        | false => exact ⟨.invalidSignature, rfl⟩
  obtain ⟨e, he⟩ := hraises
  rw [he] at h
  contradiction

/-- Where a payment row comes from that is there after a commit. -/
inductive RowOrigin (ext : Externals) (s : Database) (h : Head) (q : Payment) : Prop
  | kept (hq : q ∈ s.payments.rows)
  | opened (hq : Opened q q)
  | decided (k : String) (req : CreatePaymentRequest) (p₀ p : Payment) (ws : List (Write backend))
      (result : AuthorizationResult) (hc : h.call = .create k req) (hws : insertedPayments ws = [p₀])
      (ht : h.trace = [.committed ws, .answered (.authorize p₀) (.ok result)])
      (hp : s.payments.find? p₀.id = some p) (hq : q = Service.decided result p)
  | reported (rawBody signature reference fresh eventId : String) (event : Webhooks.Event)
      (kind : EventKind) (p : Payment) (hc : h.call = .webhook rawBody signature) (ht : h.trace = [])
      (hd : Decodes ext rawBody fresh event eventId) (href : event.pspReference = .str reference)
      (hkind : kindOf event.eventType = .ok (some kind)) (hp : p ∈ s.payments.rows)
      (hst : p.status = .authorized) (hpref : p.pspReference = some reference)
      (hq : kind = .capture ∧ q = settled reference p ∨ kind = .failure ∧ q = reversed p)
  | expired (timeoutMinutes : ℤ) (p : Payment) (hc : h.call = .expire timeoutMinutes)
      (hp : p ∈ s.payments.rows) (hst : p.status = .authorized) (hq : q = reversed p)
  | refunded (amount : ℤ) (p : Payment) (hp : p ∈ s.payments.rows)
      (hst : p.status = .succeeded ∨ p.status = .refundPending) (hq : q = Service.refunded amount p)

/-- Each row that an expiry leaves was there before, or it is a reversed one. -/
theorem row_of_reversedAll {ps : List Payment} {s s' : Database} {used used' : List Uuid}
    (h : ReversedAll ps s used s' used') (hnodup : (ps.map Payment.id).Nodup)
    (hq : q ∈ s'.payments.rows) : q ∈ s.payments.rows ∨ ∃ p ∈ ps, q = reversed p := by
  induction h with
  | nil => exact Or.inl hq
  | cons p ps s used ids s₁ s₂ used₂ found moved rest ih =>
    obtain ⟨-, hnodup⟩ := List.nodup_cons.mp hnodup
    rcases ih hnodup hq with hq | ⟨p', hp', rfl⟩
    · rw [moved.same.payments] at hq
      rcases (Table.mem_put s.payments (reversed p) q).mp hq with rfl | ⟨hq, -⟩
      · exact Or.inr ⟨p, List.mem_cons_self .., rfl⟩
      · exact Or.inl hq
    · exact Or.inr ⟨p', List.mem_cons_of_mem p hp', rfl⟩

theorem origin_of_committed (hc : Committed ext F h next L)
    (hq : q ∈ (view F.hi L.flushed).payments.rows) : RowOrigin ext F.hi h q := by
  have hput : ∀ {p : Payment}, (view F.hi L.flushed).payments = F.hi.payments.put p →
      q = p ∨ q ∈ F.hi.payments.rows := by
    intro p hp
    rw [hp] at hq
    exact ((Table.mem_put F.hi.payments p q).mp hq).imp_right fun h => h.1
  have hsame : (view F.hi L.flushed).payments = F.hi.payments → RowOrigin ext F.hi h q := by
    intro hp
    rw [hp] at hq
    exact .kept hq
  cases hc with
  | replayed k req r resp hc ht hr =>
    exact hsame (by rw [hr.flushed]; rfl)
  | opened k req p txn event hc ht ho =>
    obtain ⟨createdAt, hp⟩ := ho.payment
    rcases hput ho.effect.same.payments with rfl | hq
    · refine .opened ?_
      rw [hp]
      rfl
    · exact .kept hq
  | resolved k req p p' ws result hc hws ht hr =>
    obtain ⟨ids, s₁, hmoved, -, heffect⟩ := hr.effect
    have hpayments : (view F.hi L.flushed).payments = F.hi.payments.put (decided result p') := by
      rcases heffect with ⟨s, -, -, hview⟩ | ⟨r, -, hview⟩
      · rw [hview]
        exact hmoved.same.payments
      · rw [hview]
        exact hmoved.same.payments
    rcases hput hpayments with rfl | hq
    · exact .decided k req p p' ws result hc hws ht hr.found rfl
    · exact .kept hq
  | refundReplayed k id req hc ht hr =>
    exact hsame (by rw [hr.1]; rfl)
  | refunded k id req p r txn event hc ht hr =>
    obtain ⟨s₁, htrans, hview⟩ := hr.effect
    have hpayments : (view F.hi L.flushed).payments = F.hi.payments.put (refunded req.amount p) := by
      rw [hview]
      exact htrans.same.payments
    rcases hput hpayments with rfl | hq
    · exact .refunded req.amount p (Table.mem_of_find? hr.found) hr.allowed rfl
    · exact .kept hq
  | webhook rawBody signature event eventId i hc ht hw hp =>
    rcases hw.effect with hfl | hrec
    · exact hsame (by rw [hfl]; rfl)
    · rw [← Frame.working_of_pending L hp] at hq hput hsame
      have happlied := hrec.applied
      cases happlied with
      | unreferenced hfalsy hwork hused => exact hsame (by rw [hwork]; rfl)
      | looked reference store ps href hne hlook hsnap htrans =>
        generalize F.working L = t at htrans hq hput hsame
        generalize usedBy F L = used' at htrans
        cases htrans with
        | idle hidle => exact .kept hq
        | captured p ids s' hps hst hkind hmoved =>
          obtain ⟨hpref, hfound⟩ := hlook.current p (by rw [hps]; exact List.mem_singleton_self p)
          rcases hput hmoved.same.payments with hq | hq
          · exact .reported rawBody signature reference i.str eventId event .capture p hc ht hw.decodes
              href hkind (Table.mem_of_find? hfound) hst hpref (Or.inl ⟨rfl, hq⟩)
          · exact .kept hq
        | failed p ids s' hps hst hkind hmoved =>
          obtain ⟨hpref, hfound⟩ := hlook.current p (by rw [hps]; exact List.mem_singleton_self p)
          rcases hput hmoved.same.payments with hq | hq
          · exact .reported rawBody signature reference i.str eventId event .failure p hc ht hw.decodes
              href hkind (Table.mem_of_find? hfound) hst hpref (Or.inr ⟨rfl, hq⟩)
          · exact .kept hq
  | expired timeoutMinutes ps hc ht he =>
    rcases row_of_reversedAll he.reversed he.nodup hq with hq | ⟨p, hp, hq⟩
    · exact .kept hq
    · obtain ⟨hst, hfound⟩ := he.stale p hp
      exact .expired timeoutMinutes p hc (Table.mem_of_find? hfound) hst hq
  | posted type referenceId postings txn hc ht hp =>
    have helse := hp.posted.elsewhere
    unfold SameElsewhere at helse
    exact hsame (by rw [helse])
  | drained batchSize evs t hc ht hd =>
    obtain ⟨s, order, hdrawn⟩ := hd.select
    refine hsame ?_
    rw [hd.flushed]
    exact publishAll_induction (R := fun s s' => s'.payments = s.payments)
      (fun _ => rfl) (fun _ _ _ h h' => h'.trans h) t (fun _ _ _ _ => rfl) hdrawn.nodup hdrawn.current

end Commits

section Steps

variable {ext : Externals} {P : Call → Prop} {skips : Key → Prop} {db : Database} {spent : List Uuid}
  {σ σ' : State} {l : Label backend Call} {p p₀ p₀' : Payment} {r r' : AuthorizationResult}

theorem openedBy_of_trace {q : Process backend Call Reply} {k : String} {req : CreatePaymentRequest}
    {ws : List (Write backend)} {rest : List (RowLocking.Event backend)} (hc : q.call = .create k req)
    (hws : insertedPayments ws = [p₀]) (ht : q.trace = .committed ws :: rest) :
    openedBy q.toHeader = some p₀ := by
  unfold openedBy
  rw [hc, ht]
  dsimp only
  rw [hws]
  rfl

/-- The second transaction of `create` finds the payment as the call has opened it. -/
theorem found_as_opened (h : Running ext P skips σ) {pid : ℕ} {q : Process backend Call Reply}
    (hq : σ.procs pid = some q) {k : String} {req : CreatePaymentRequest} {ws : List (Write backend)}
    (hc : q.call = .create k req) (hws : insertedPayments ws = [p₀])
    (ht : q.trace = [.committed ws, .answered (.authorize p₀) (.ok r)])
    (hp : σ.db.payments.find? p₀.id = some p) : p = p₀ ∧ Opened p₀ p₀ := by
  have hholds := h.owned.holds pid q.toHeader k req p₀ (System.toAtomic_heads hq) hc
    (openedBy_of_trace hc hws ht)
  obtain ⟨hfound, -⟩ := hholds.unresolved (owned_answered hc hws ht)
  obtain ⟨createdAt, hmade⟩ := hholds.made
  refine ⟨Option.some.inj (hp.symm.trans hfound), ?_⟩
  unfold Opened
  rw [hmade]
  rfl

/-- The answer of the provider as it is stored. -/
theorem justified_of_decided (ext : Externals) (σ : State) (r : AuthorizationResult)
    (hopened : Opened p₀ p₀) : Justified ext σ r (decided r p₀) := by
  have href : p₀.pspReference = none := congrArg Payment.pspReference hopened
  unfold decided
  cases hout : r.outcome with
  | captured => exact .captured hout (Or.inl rfl) rfl
  | declined => exact .declined hout rfl href
  | pending => exact .pending hout rfl rfl

theorem opened_decided (hopened : Opened p₀ p₀) (r : AuthorizationResult) :
    Opened p₀ (decided r p₀) := by
  unfold decided
  cases r.outcome with
  | captured => exact hopened
  | declined => exact hopened
  | pending => exact hopened

/-- A refund leaves the grounds of the payment as they are. -/
theorem Grounds.refunded (h : Grounds ext σ p) (hst : p.status = .succeeded ∨ p.status = .refundPending)
    (amount : ℤ) : Grounds ext σ (refunded amount p) := by
  have hafter : p.status = .succeeded ∨ p.status = .refunded →
      (Service.refunded amount p).status = .succeeded ∨
        (Service.refunded amount p).status = .refunded := by
    intro hbefore
    unfold Service.refunded
    dsimp only
    split
    · exact Or.inr rfl
    · exact hbefore
  cases h with
  | opened hp =>
    have hprocessing : p.status = .processing := congrArg Payment.status hp
    rw [hprocessing] at hst
    rcases hst with hst | hst <;> contradiction
  | answered p₀ r hp hr hj =>
    refine .answered p₀ r hp hr ?_
    cases hj with
    | captured hout hst' href => exact .captured hout (hafter hst') href
    | capturedLater reference hout hreported hst' href hr' =>
      exact .capturedLater reference hout hreported (hafter hst') href hr'
    | declined _ hst' _ | pending _ hst' _ | failedLater _ _ _ hst' _ _ | expired _ _ hst' _ =>
      rw [hst'] at hst
      rcases hst with hst | hst <;> contradiction

/-- The only program of a webhook that commits is the one that it was started with. -/
theorem program_of_webhook {F : Frame backend} {h : Head} {rawBody signature : String}
    {next : Program Reply} {L : Session backend} (hs : Stage ext h.call h.base h.trace)
    (hc : h.call = .webhook rawBody signature) (ht : h.trace = [])
    (hr : h.base.Runs F (.fresh backend) (.committed next L)) :
    h.base = program ext (.webhook rawBody signature) := by
  rw [hc, ht] at hs
  generalize hbase : h.base = base at hs hr ⊢
  cases hs with
  | start => rfl
  | failed _ e => contradiction

/-- A commit puts in rows that have their grounds. -/
theorem grounds_of_origin (h : Running ext P skips σ) (hσ : ∀ p ∈ σ.db.payments.rows, Grounds ext σ p)
    (hl : σ.step (program ext) l = some σ') {pid : ℕ} {q q' : Process backend Call Reply}
    {ws' : List (Write backend)} (hq : σ.procs pid = some q) (hq' : σ'.procs pid = some q')
    (hcall : q'.call = q.call) (htrace : q'.trace = q.trace ++ [.committed ws']) (hws' : ws' ≠ [])
    (hsigned : ∀ rawBody signature, q.call = .webhook rawBody signature → q.trace = [] →
      signatureIsValid ext rawBody signature = .ok true)
    (horigin : RowOrigin ext σ.db q.toHeader p) : Grounds ext σ' p := by
  have hwrote : Wrote q'.trace := by
    rw [htrace]
    exact wrote_append_committed.mpr (Or.inr hws')
  cases horigin with
  | kept hp => exact (hσ p hp).step hl
  | opened hp => exact .opened hp
  | decided k req p₀ p' ws result hc hws ht hp hdecided =>
    obtain ⟨rfl, hopened⟩ := found_as_opened h hq hc hws ht hp
    subst hdecided
    refine .answered p' result (opened_decided hopened result) ?_ (justified_of_decided ext σ' result hopened)
    refine ⟨pid, q', k, req, ws, [.committed ws'], hq', hcall.trans hc, hws, ?_⟩
    rw [htrace, ht]
    rfl
  | reported rawBody signature reference fresh eventId event kind p' hc ht hd href hkind hp hst hpref hmoved =>
    obtain ⟨data, hload, hparse, -⟩ := hd
    have hreported : Reported ext σ' reference kind :=
      ⟨pid, q', rawBody, signature, data, fresh, event, hq', hcall.trans hc, hwrote,
        hsigned rawBody signature hc ht, hload, hparse, href, hkind⟩
    obtain ⟨p₀, r, hopened, hr, hout, hpr⟩ := (hσ p' hp).of_authorized hst
    have hr' := hr.step hl
    have hreference := hpr.symm.trans hpref
    rcases hmoved with ⟨rfl, rfl⟩ | ⟨rfl, rfl⟩
    · exact .answered p₀ r hopened hr'
        (.capturedLater reference hout hreported (Or.inl rfl) rfl hreference)
    · exact .answered p₀ r hopened hr' (.failedLater reference hout hreported rfl hpref hreference)
  | expired timeoutMinutes p' hc hp hst hreversed =>
    subst hreversed
    obtain ⟨p₀, r, hopened, hr, hout, hpr⟩ := (hσ p' hp).of_authorized hst
    exact .answered p₀ r hopened (hr.step hl)
      (.expired hout ⟨pid, q', timeoutMinutes, hq', hcall.trans hc, hwrote⟩ rfl hpr)
  | refunded amount p' hp hst hrefunded =>
    subst hrefunded
    exact ((hσ p' hp).step hl).refunded hst amount

/-- Where a row comes from that is there after a step. -/
theorem origin_of_step (h : Running ext P skips σ) (hl : σ.step (program ext) l = some σ')
    (hp : p ∈ σ'.db.payments.rows) :
    p ∈ σ.db.payments.rows ∨ ∃ pid q q' ws, σ.procs pid = some q ∧ σ'.procs pid = some q' ∧
      q'.call = q.call ∧ q'.trace = q.trace ++ [.committed ws] ∧ ws ≠ [] ∧
      (∀ rawBody signature, q.call = .webhook rawBody signature → q.trace = [] →
        signatureIsValid ext rawBody signature = .ok true) ∧ RowOrigin ext σ.db q.toHeader p := by
  obtain ⟨act, hs⟩ := System.stepped_of_step hl
  cases hs with
  | commit pid o q next hq hprog hL hd =>
    by_cases hwrites : q.session.flushed = []
    · left
      change p ∈ (view σ.db q.session.flushed).payments.rows at hp
      rw [hwrites] at hp
      exact hp
    · have hruns := System.runs_of_commit h.sound hq hprog hL hd
      have hstage := h.owned.stage pid q.toHeader (System.toAtomic_heads hq)
      refine Or.inr ⟨pid, q, _, q.session.flushed, hq, System.procs_set_self σ pid _, rfl, rfl, hwrites,
        ?_, origin_of_committed (committed_of_stage hstage hruns) hp⟩
      intro rawBody signature hc ht
      apply signed_of_commits
      rw [← program_of_webhook hstage hc ht hruns]
      exact hruns
  | _ => exact Or.inl hp

theorem grounds_of_step (h : Running ext P skips σ) (hσ : ∀ p ∈ σ.db.payments.rows, Grounds ext σ p)
    (hl : σ.step (program ext) l = some σ') (hp : p ∈ σ'.db.payments.rows) : Grounds ext σ' p := by
  rcases origin_of_step h hl hp with hold | ⟨pid, q, q', ws, hq, hq', hcall, htrace, hws, hsigned, horigin⟩
  · exact (hσ p hold).step hl
  · exact grounds_of_origin h hσ hl hq hq' hcall htrace hws hsigned horigin

theorem grounds_of_run (hpayments : db.payments.rows = [])
    (h : System.Run (program ext) anyStep (System.initial db spent) σ) :
    ∀ p ∈ σ.db.payments.rows, Grounds ext σ p := by
  induction h with
  | refl =>
    intro p hp
    change p ∈ db.payments.rows at hp
    rw [hpayments] at hp
    exact absurd hp List.not_mem_nil
  | @tail σ₁ σ₂ hrun hstep ih =>
    obtain ⟨l, hl, -⟩ := hstep
    exact fun p hp => grounds_of_step (running_of_run hrun) ih hl hp

/-- The provider is asked once about a payment. -/
theorem AnsweredWith.unique (hrunning : Running ext P skips σ) (h : AnsweredWith σ p₀ r)
    (h' : AnsweredWith σ p₀' r') (hid : p₀.id = p₀'.id) : p₀ = p₀' ∧ r = r' := by
  obtain ⟨pid, q, k, req, ws, rest, hq, hc, hws, ht⟩ := h
  obtain ⟨pid', q', k', req', ws', rest', hq', hc', hws', ht'⟩ := h'
  have hpid := hrunning.owned.payments_once pid pid' q.toHeader q'.toHeader p₀ p₀'
    (System.toAtomic_heads hq) (System.toAtomic_heads hq') (openedBy_of_trace hc hws ht)
    (openedBy_of_trace hc' hws' ht') hid
  subst hpid
  obtain rfl := Option.some.inj (hq.symm.trans hq')
  rw [ht] at ht'
  injection ht' with hfirst hrest
  injection hrest with hanswer hrest
  injection hanswer with hquery hans
  cases hquery
  exact ⟨rfl, Except.ok.inj hans⟩

end Steps

end ApexPayments.Service
