import ApexPayments.Changes
import ApexPayments.WebhookDecoding

/-!
Events that come too early. A delivery is recorded whether or not its lookup finds the
payment that it is for, so an event is lost if the transaction that stores the reference
commits after the lookup. If none does, no payment waits for a recorded event.
-/
namespace ApexPayments.Service

open Domain Store Ledger Payments Webhooks RowLocking

section Effects

variable {F : Frame backend} {ext : Externals} {h : Head} {next : Program Reply}
  {L : Session backend} {s s' : Database} {r : String} {p q : Payment}

/-- The payment waits for an event with the reference. -/
def Awaits (s : Database) (r : String) (p : Payment) : Prop :=
  p ∈ s.payments.rows ∧ p.status = .authorized ∧ p.pspReference = some r

/-- The body of a capture or failure event with the reference. -/
def Concerns (ext : Externals) (rawBody r : String) : Prop :=
  ∃ data fresh event kind, ext.loads rawBody = some data ∧ parseEvent fresh data = .ok event ∧
    event.pspReference = .str r ∧ kindOf event.eventType = .ok (some kind)

/-- A body yields one reference and one type. -/
theorem Concerns.event {rawBody fresh eventId : String} {event : Webhooks.Event}
    (h : Concerns ext rawBody r) (hd : Decodes ext rawBody fresh event eventId) :
    event.pspReference = .str r ∧ ∃ kind, kindOf event.eventType = .ok (some kind) := by
  obtain ⟨data, fresh', event', kind, hload, hparse, href, hkind⟩ := h
  obtain ⟨data', hload', hparse', -⟩ := hd
  obtain rfl := Option.some.inj (hload.symm.trans hload')
  have hlegible := legible_of_parseEvent hparse
  rw [parseEvent_legible hlegible] at hparse hparse'
  cases hparse
  cases hparse'
  exact ⟨href, kind, hkind⟩

/-- A row that does not wait is written. -/
theorem Awaits.of_put (hp : s'.payments = s.payments.put q) (hq : q.status ≠ .authorized)
    (h : Awaits s' r p) : Awaits s r p := by
  obtain ⟨hmem, hst, href⟩ := h
  rw [hp] at hmem
  rcases (Table.mem_put s.payments q p).mp hmem with rfl | ⟨hmem, -⟩
  · exact absurd hst hq
  · exact ⟨hmem, hst, href⟩

/-- What a commit does to waiting payments and to recorded events. -/
inductive Touches (ext : Externals) (F : Frame backend) (h : Head) (L : Session backend) : Prop
  | calm (hpay : ∀ r p, Awaits (view F.hi L.flushed) r p → Awaits F.hi r p)
      (hevents : (view F.hi L.flushed).webhookEvents = F.hi.webhookEvents)
  | stored (k : String) (req : CreatePaymentRequest) (p p' : Payment) (ws : List (Write backend))
      (result : AuthorizationResult) (hc : h.call = .create k req)
      (ht : h.trace = [.committed ws, .answered (.authorize p) (.ok result)])
      (hpay : (view F.hi L.flushed).payments = F.hi.payments.put (decided result p'))
      (hevents : (view F.hi L.flushed).webhookEvents = F.hi.webhookEvents)
  | recorded (rawBody signature eventId : String) (event : Webhooks.Event) (i : Uuid)
      (hc : h.call = .webhook rawBody signature) (hd : Decodes ext rawBody i.str event eventId)
      (hr : Records F rawBody event eventId i L) (hview : view F.hi L.flushed = F.working L)

theorem calm_of_put (hL : (view F.hi L.flushed).payments = F.hi.payments.put q)
    (hq : q.status ≠ .authorized)
    (hevents : (view F.hi L.flushed).webhookEvents = F.hi.webhookEvents) : Touches ext F h L :=
  .calm (fun _ _ hx => hx.of_put hL hq) hevents

theorem calm_of_same (hL : (view F.hi L.flushed).payments = F.hi.payments)
    (hevents : (view F.hi L.flushed).webhookEvents = F.hi.webhookEvents) : Touches ext F h L := by
  refine .calm ?_ hevents
  intro r p ⟨hmem, hrest⟩
  exact ⟨hL ▸ hmem, hrest⟩

theorem calm_of_nothing (hL : L.flushed = []) : Touches ext F h L := by
  apply calm_of_same
  · rw [hL]
    rfl
  · rw [hL]
    rfl

theorem awaits_of_reversedAll {ps : List Payment} {used used' : List Uuid}
    (h : ReversedAll ps s used s' used') :
    (∀ r p, Awaits s' r p → Awaits s r p) ∧ s'.webhookEvents = s.webhookEvents := by
  induction h with
  | nil => exact ⟨fun _ _ hx => hx, rfl⟩
  | cons p ps s used ids s₁ s₂ used₂ found moved rest ih =>
    refine ⟨fun r x hx => ?_, ih.2.trans moved.same.webhookEvents⟩
    exact (ih.1 r x hx).of_put moved.same.payments (by simp [reversed])

theorem rows_of_resolves {k : String} {req : CreatePaymentRequest} {id : Uuid}
    {result : AuthorizationResult} (hr : Resolves F k req id result p next L) :
    (view F.hi L.flushed).payments = F.hi.payments.put (decided result p) ∧
      (view F.hi L.flushed).webhookEvents = F.hi.webhookEvents := by
  obtain ⟨ids, s₁, hmoved, -, ⟨s, -, -, hview⟩ | ⟨r, -, hview⟩⟩ := hr.effect
  · rw [hview]
    exact ⟨hmoved.same.payments, hmoved.same.webhookEvents⟩
  · rw [hview]
    exact ⟨hmoved.same.payments, hmoved.same.webhookEvents⟩

theorem touches_of_committed (hc : Committed ext F h next L) : Touches ext F h L := by
  cases hc with
  | replayed k req r resp hcall ht hr => exact calm_of_nothing hr.flushed
  | opened k req p txn event hcall ht ho =>
    obtain ⟨createdAt, hmade⟩ := ho.payment
    refine calm_of_put ho.effect.same.payments ?_ ho.effect.same.webhookEvents
    rw [hmade]
    simp [held]
  | resolved k req p p' ws result hcall hws ht hr =>
    obtain ⟨hpay, hevents⟩ := rows_of_resolves hr
    exact .stored k req p p' ws result hcall ht hpay hevents
  | refundReplayed k id req hcall ht hr => exact calm_of_nothing hr.1
  | refunded k id req p r txn event hcall ht hr =>
    obtain ⟨s₁, htrans, hview⟩ := hr.effect
    have hpay : (view F.hi L.flushed).payments = F.hi.payments.put (Service.refunded req.amount p) := by
      rw [hview]
      exact htrans.same.payments
    refine calm_of_put hpay ?_ ?_
    · by_cases hall : p.refundedAmount + req.amount = p.amount
      · simp [Service.refunded, hall]
      · rcases hr.allowed with hst | hst <;> simp [Service.refunded, hall, hst]
    · rw [hview]
      exact htrans.same.webhookEvents
  | webhook rawBody signature event eventId i hcall ht hw hp =>
    rcases hw.effect with hfl | hrec
    · exact calm_of_nothing hfl
    · exact .recorded rawBody signature eventId event i hcall hw.decodes hrec
        (Frame.working_of_pending L hp).symm
  | expired timeoutMinutes ps hcall ht he =>
    obtain ⟨hpay, hevents⟩ := awaits_of_reversedAll he.reversed
    exact .calm hpay hevents
  | posted type referenceId postings txn hcall ht hp =>
    have helse := hp.posted.elsewhere
    unfold SameElsewhere at helse
    refine calm_of_same ?_ ?_
    · rw [helse]
    · rw [helse]
  | drained batchSize evs t hcall ht hd =>
    obtain ⟨s, order, hdrawn⟩ := hd.select
    have hsame := publishAll_induction
      (R := fun s s' => s'.payments = s.payments ∧ s'.webhookEvents = s.webhookEvents)
      (fun _ => ⟨rfl, rfl⟩) (fun _ _ _ h h' => ⟨h'.1.trans h.1, h'.2.trans h.2⟩) t
      (fun _ _ _ _ => ⟨rfl, rfl⟩) hdrawn.nodup hdrawn.current
    rw [← hd.flushed] at hsame
    exact calm_of_same hsame.1 hsame.2

/-- Applying an event changes no payment but the one that its lookup found. -/
theorem applied_rows {event : Webhooks.Event} {used : List Uuid} (ha : Applied F event s used L) :
    (F.working L).webhookEvents = s.webhookEvents ∧
      ((F.working L).payments = s.payments ∨ ∃ reference store q q',
        event.pspReference = .str reference ∧ reference ≠ "" ∧ Looked F reference store [q] ∧
        L.snapshots.reverse[1]? = some store ∧ q'.id = q.id ∧ q'.status ≠ .authorized ∧
        (F.working L).payments = s.payments.put q') := by
  cases ha with
  | unreferenced hfalsy hwork hused =>
    rw [hwork]
    exact ⟨rfl, Or.inl rfl⟩
  | looked reference store ps href hne hlook hsnap htrans =>
    generalize F.working L = t at htrans ⊢
    generalize usedBy F L = used' at htrans
    cases htrans with
    | idle hidle => exact ⟨rfl, Or.inl rfl⟩
    | captured p ids s' hps hst hkind hmoved =>
      subst hps
      exact ⟨hmoved.same.webhookEvents, Or.inr ⟨reference, store, p, settled reference p, href, hne, hlook,
        hsnap, rfl, by simp [settled], hmoved.same.payments⟩⟩
    | failed p ids s' hps hst hkind hmoved =>
      subst hps
      exact ⟨hmoved.same.webhookEvents, Or.inr ⟨reference, store, p, reversed p, href, hne, hlook,
        hsnap, rfl, by simp [reversed], hmoved.same.payments⟩⟩

end Effects

section Timing

variable {ext : Externals} {skips : Key → Prop} {a : Moment} {h : Head} {next : Program Reply}
  {L : Session backend}

/-- No payment waits for an event that has been processed. -/
def NoneLost (ext : Externals) (s : Database) : Prop :=
  ∀ e ∈ s.webhookEvents.rows, e.status = .processed → ∀ r, Concerns ext e.payload r →
    ∀ p ∈ s.payments.rows, p.pspReference = some r → p.status ≠ .authorized

/-- The lookup of a delivery, its second query, has seen the payment under the reference.
An empty reference is not looked up. -/
def SeenBy (L : Session backend) (r : String) (p : Payment) : Prop :=
  r ≠ "" ∧ ∃ t, L.snapshots.reverse[1]? = some t ∧
    ∃ p₀ ∈ t.payments.rows, p₀.pspReference = some r ∧ p₀.id = p.id

/-- The commit comes in time: a call of `create` stores no reference of an event that has
been processed, and a delivery has seen every payment that waits for its event. -/
structure InTime (ext : Externals) (s : Database) (h : Head) (L : Session backend) : Prop where
  stores : ∀ k req q ws result r, h.call = .create k req →
    h.trace = [.committed ws, .answered (.authorize q) (.ok result)] → result.outcome = .pending →
    result.pspReference = some r → ∀ e ∈ s.webhookEvents.rows, e.status = .processed →
    ¬ Concerns ext e.payload r
  records : ∀ rawBody signature r p, h.call = .webhook rawBody signature → L.flushed ≠ [] →
    Concerns ext rawBody r → Awaits s r p → SeenBy L r p

theorem awaits_decided {s : Database} {result : AuthorizationResult} {r : String} {p x : Payment}
    (hx : x ∈ (s.payments.put (decided result p)).rows) (href : x.pspReference = some r)
    (hst : x.status = .authorized) :
    Awaits s r x ∨ result.outcome = .pending ∧ result.pspReference = some r := by
  rcases (Table.mem_put s.payments _ x).mp hx with rfl | ⟨hmem, -⟩
  · unfold decided at href hst
    cases ho : result.outcome with
    | pending =>
      rw [ho] at href
      exact Or.inr ⟨rfl, href⟩
    | captured =>
      rw [ho] at hst
      contradiction
    | declined =>
      rw [ho] at hst
      contradiction
  · exact Or.inl ⟨hmem, hst, href⟩

/-- A delivery that has seen a waiting payment resolves it. -/
theorem not_awaits_of_seen {rawBody eventId r : String} {event : Webhooks.Event} {i : Uuid} {p : Payment}
    (hd : Decodes ext rawBody i.str event eventId)
    (hr : Records (a.frame Older skips h) rawBody event eventId i L) (hc : Concerns ext rawBody r)
    (hp : Awaits a.db r p) (hseen : SeenBy L r p) :
    ¬ Awaits ((a.frame Older skips h).working L) r p := by
  obtain ⟨href, kind, hkind⟩ := hc.event hd
  obtain ⟨hne, t, hsnap, p₀, hp₀, href₀, hid⟩ := hseen
  intro hafter
  cases hr.applied with
  | unreferenced hfalsy hwork hused =>
    rw [href] at hfalsy
    simp [truthy, hne] at hfalsy
  | looked reference store ps href' hne' hlook hsnap' htrans =>
    obtain rfl : reference = r := by
      rw [href] at href'
      cases href'
      rfl
    obtain rfl := Option.some.inj (hsnap.symm.trans hsnap')
    -- the row that the lookup saw is there still, so the payment has been locked
    have hmem : p ∈ ps := by
      rcases hlook.complete p₀ hp₀ href₀ with ⟨u, -, holder, hnone⟩ | ⟨p', hp', hmem⟩
      · have hsome := holder.payments p₀.id (by rw [Table.find?_of_mem hp₀]; rfl)
        rw [hnone] at hsome
        contradiction
      · have hfind : a.db.payments.find? p.id = some p := Table.find?_of_mem hp.1
        rw [hid] at hp'
        obtain rfl := Option.some.inj (hfind.symm.trans hp')
        exact hmem hp.2.2
    generalize (a.frame Older skips h).working L = s' at htrans hafter
    generalize usedBy (a.frame Older skips h) L = used' at htrans
    cases htrans with
    | idle hidle =>
      rw [hidle p hmem hp.2.1] at hkind
      simp at hkind
    | captured q ids s' hps hst hkind' hmoved =>
      rw [hps] at hmem
      obtain rfl := List.mem_singleton.mp hmem
      have hfind := hmoved.find_self
      rw [show (settled reference p).id = p.id from rfl, Table.find?_of_mem hafter.1] at hfind
      have hst := congrArg Payment.status (Option.some.inj hfind)
      rw [hafter.2.1] at hst
      contradiction
    | failed q ids s' hps hst hkind' hmoved =>
      rw [hps] at hmem
      obtain rfl := List.mem_singleton.mp hmem
      have hfind := hmoved.find_self
      rw [show (reversed p).id = p.id from rfl, Table.find?_of_mem hafter.1] at hfind
      have hst := congrArg Payment.status (Option.some.inj hfind)
      rw [hafter.2.1] at hst
      contradiction

theorem noneLost_of_committed (hc : Committed ext (a.frame Older skips h) h next L)
    (hin : InTime ext a.db h L) (hnone : NoneLost ext a.db) : NoneLost ext (view a.db L.flushed) := by
  intro e he hst r hcon p hp href hauth
  cases touches_of_committed hc with
  | calm hpay hevents =>
    obtain ⟨hmem, -, -⟩ := hpay r p ⟨hp, hauth, href⟩
    rw [show (view a.db L.flushed).webhookEvents = a.db.webhookEvents from hevents] at he
    exact hnone e he hst r hcon p hmem href hauth
  | stored k req q q' ws result hcall ht hpay hevents =>
    rw [show (view a.db L.flushed).webhookEvents = a.db.webhookEvents from hevents] at he
    rw [show (view a.db L.flushed).payments = a.db.payments.put (decided result q') from hpay] at hp
    rcases awaits_decided hp href hauth with hold | ⟨hpending, hreference⟩
    · exact hnone e he hst r hcon p hold.1 href hauth
    · exact hin.stores k req q ws result r hcall ht hpending hreference e he hst hcon
  | recorded rawBody signature eventId event i hcall hd hr hview =>
    rw [show view a.db L.flushed = (a.frame Older skips h).working L from hview] at he hp
    obtain ⟨hevents, hpay⟩ := applied_rows hr.applied
    -- the payment was waiting before
    have hbefore : Awaits a.db r p := by
      rcases hpay with hpay | ⟨_, _, q, q', -, -, -, -, -, hq', hpay⟩
      · rw [hpay] at hp
        exact ⟨hp, hauth, href⟩
      · exact Awaits.of_put (s := a.db) hpay hq' ⟨hp, hauth, href⟩
    rw [hevents] at he
    rcases (Table.mem_put a.db.webhookEvents ⟨eventId, rawBody, .processed⟩ e).mp he with rfl | ⟨he, -⟩
    · have hflushed : L.flushed ≠ [] := by
        intro hnil
        have hold : (view a.db L.flushed).webhookEvents.find? eventId = some ⟨eventId, rawBody, .processed⟩ := by
          rw [show view a.db L.flushed = (a.frame Older skips h).working L from hview, hevents]
          exact Table.find?_put_self _ _
        rw [hnil] at hold
        exact absurd (hr.fresh.symm.trans hold) (by simp)
      have hseen := hin.records rawBody signature r p hcall hflushed hcon hbefore
      exact not_awaits_of_seen hd hr hcon hbefore hseen ⟨hp, hauth, href⟩
    · exact hnone e he hst r hcon p hbefore.1 href hauth

/-- After a commit that comes too early a payment waits for a processed event. -/
theorem inTime_of_noneLost (hc : Committed ext (a.frame Older skips h) h next L)
    (hnone : NoneLost ext (view a.db L.flushed)) : InTime ext a.db h L := by
  constructor
  · intro k req q ws result r hcall ht hpending hreference e he hst hcon
    cases hc with
    | resolved k' req' q' p ws' result' hcall' hws ht' hr =>
      obtain rfl : result = result' := by
        rw [ht] at ht'
        cases ht'
        rfl
      obtain ⟨hpay, hevents⟩ := rows_of_resolves hr
      have hmem : decided result p ∈ (view a.db L.flushed).payments.rows := by
        rw [show (view a.db L.flushed).payments = a.db.payments.put (decided result p) from hpay]
        exact (Table.mem_put _ _ _).mpr (Or.inl rfl)
      rw [← show (view a.db L.flushed).webhookEvents = a.db.webhookEvents from hevents] at he
      refine hnone e he hst r hcon (decided result p) hmem ?_ ?_
      · simp [decided, hpending, awaiting, hreference]
      · simp [decided, hpending, awaiting]
    | replayed k' req' r' resp hcall' ht' | opened k' req' p txn event hcall' ht' =>
      rw [ht] at ht'
      contradiction
    | refundReplayed k' id req' hcall' | refunded k' id req' p r' txn event hcall'
    | webhook rawBody signature event eventId i hcall' | expired timeoutMinutes ps hcall'
    | posted type referenceId postings txn hcall' | drained batchSize evs t hcall' =>
      rw [hcall] at hcall'
      contradiction
  · intro rawBody signature r p hcall hflushed hcon hp
    by_contra hunseen
    cases hc with
    | webhook rawBody' signature' event eventId i hcall' ht hw hpend =>
      obtain ⟨rfl, rfl⟩ : rawBody = rawBody' ∧ signature = signature' := by
        rw [hcall] at hcall'
        cases hcall'
        exact ⟨rfl, rfl⟩
      have hrec := hw.effect.resolve_left hflushed
      have hview : view a.db L.flushed = (a.frame Older skips h).working L :=
        (Frame.working_of_pending (F := a.frame Older skips h) L hpend).symm
      obtain ⟨href, kind, hkind⟩ := hcon.event hw.decodes
      obtain ⟨hevents, hpay⟩ := applied_rows hrec.applied
      rw [hview] at hnone
      have hevent : (⟨eventId, rawBody, .processed⟩ : WebhookEvent) ∈
          ((a.frame Older skips h).working L).webhookEvents.rows := by
        rw [hevents]
        exact (Table.mem_put _ _ _).mpr (Or.inl rfl)
      refine hnone _ hevent rfl r hcon p ?_ hp.2.2 hp.2.1
      rcases hpay with hpay | ⟨reference, store, q, q', href', hne, hlook, hsnap, hid, -, hpay⟩
      · rw [hpay]
        exact hp.1
      · obtain rfl : reference = r := by
          rw [href] at href'
          cases href'
          rfl
        rw [hpay]
        refine (Table.mem_put _ _ _).mpr (Or.inr ⟨hp.1, ?_⟩)
        -- the payment that the lookup found is another one
        intro hsame
        obtain ⟨p₀, hp₀, href₀, hid₀⟩ := hlook.found q (List.mem_singleton_self q)
        exact hunseen ⟨hne, store, hsnap, p₀, hp₀, href₀, hid₀.trans (hid.symm.trans hsame.symm)⟩
    | replayed k req r' resp hcall' | opened k req q txn event hcall'
    | resolved k req q p' ws result hcall' | refundReplayed k id req hcall'
    | refunded k id req q r' txn event hcall' | expired timeoutMinutes ps hcall'
    | posted type referenceId postings txn hcall' | drained batchSize evs t hcall' =>
      rw [hcall] at hcall'
      contradiction

end Timing

section Claim

variable {ext : Externals} {db : Database} {spent : List Uuid} {σ σ' : State}

/-- The step is no commit that comes too early. -/
def Timely (ext : Externals) (σ : State) (l : Label backend Call) : Prop :=
  ∀ pid o p next, l = .run pid o → σ.procs pid = some p → p.prog = .commit next →
    Untripped σ.db p.session → InTime ext σ.db p.toHeader p.session

theorem noneLost_of_step {P : Call → Prop} (h : Running ext P anyKey σ) {l : Label backend Call}
    (hl : σ.step (program ext) l = some σ') (htimely : Timely ext σ l) (hnone : NoneLost ext σ.db) :
    NoneLost ext σ'.db := by
  rcases db_of_step h hl with hdb | ⟨pid, o, p, next, rfl, hp, hq, hd, hc, hdb⟩
  · rw [hdb]
    exact hnone
  · rw [hdb]
    exact noneLost_of_committed hc (htimely pid o p next rfl hp hq hd) hnone

/-- As long as no reference is stored after the lookup of a delivery that is for it, no
payment waits for an event that has been processed. After such a commit one does. -/
theorem no_event_lost_iff (hdb : NoneLost ext db) :
    (∀ σ, System.Run (program ext) (Timely ext) (System.initial db spent) σ → NoneLost ext σ.db) ∧
      ∀ σ l σ', System.Run (program ext) (Starts fun _ => True) (System.initial db spent) σ →
        ¬ Timely ext σ l → σ.step (program ext) l = some σ' → ¬ NoneLost ext σ'.db := by
  have hrunning : ∀ {ok : State → Label backend Call → Prop} {σ},
      System.Run (program ext) ok (System.initial db spent) σ → Running ext (fun _ => True) anyKey σ := by
    intro ok σ h
    refine (changes_of_run (running_initial db spent) (System.Run.mono h ?_)).1
    intro σ l _
    cases l <;> trivial
  constructor
  · intro σ h
    induction h with
    | refl => exact hdb
    | tail hrun hstep ih =>
      obtain ⟨l, hl, hok⟩ := hstep
      exact noneLost_of_step (hrunning hrun) hl hok ih
  · intro σ l σ' h hearly hl hnone
    apply hearly
    intro pid o p next hlabel hp hq hd
    subst hlabel
    rcases System.stepped_of_step hl with ⟨act, hs⟩
    cases hs with
    | commit _ _ p' next' hp' hq' hL hd' =>
      obtain rfl := Option.some.inj (hp.symm.trans hp')
      have hruns := System.runs_of_commit (hrunning h).sound hp' hq' hL hd'
      have hstage := (hrunning h).owned.stage pid p.toHeader (System.toAtomic_heads hp)
      exact inTime_of_noneLost (a := σ.toAtomic) (committed_of_stage hstage hruns) hnone
    | deferred _ _ p' next' e hp' hq' hL hd' =>
      obtain rfl := Option.some.inj (hp.symm.trans hp')
      rw [Untripped] at hd
      exact absurd (hd.symm.trans hd') (by simp)
    | call _ _ p' q next' hp' hq' =>
      obtain rfl := Option.some.inj (hp.symm.trans hp')
      rw [hq] at hq'
      contradiction
    | refused _ _ p' e L hp' hl' | advance _ _ p' prog L issued hp' he hl' =>
      obtain rfl := Option.some.inj (hp.symm.trans hp')
      rw [hq] at hl'
      contradiction

section Sample

/-- The session's lookup has seen the payment. -/
def seenIn (L : Session backend) (p : Payment) : Bool :=
  p.pspReference.all fun r => r ≠ "" ∧ (L.snapshots.reverse[1]?).any fun t =>
    t.payments.rows.any fun p₀ => p₀.pspReference = some r ∧ p₀.id = p.id

/-- A test that a step is timely: calls of `create` commit while there is no event yet. -/
def timelyCheck (σ : State) (l : Label backend Call) : Bool :=
  match σ.procs l.pid with
  | none => true
  | some p =>
      match p.prog with
      | .commit _ =>
          if p.call.create?.isSome then σ.db.webhookEvents.rows.isEmpty
          else σ.db.payments.rows.all fun q => q.status ≠ .authorized ∨ seenIn p.session q
      | _ => true

theorem timely_of_check (l : Label backend Call) (h : timelyCheck σ l = true) : Timely ext σ l := by
  intro pid o p next hlabel hp hq _
  subst hlabel
  simp only [timelyCheck, Label.pid, hp, hq] at h
  constructor
  · intro k req q ws result r hc _ _ _ e he
    rw [show p.call = .create k req from hc] at h
    have hempty : σ.db.webhookEvents.rows = [] := by simpa [Call.create?] using h
    rw [hempty] at he
    contradiction
  · intro rawBody signature r q hc _ _ hq
    rw [show p.call = .webhook rawBody signature from hc] at h
    have hall : ∀ q ∈ σ.db.payments.rows, q.status ≠ .authorized ∨ seenIn p.session q = true := by
      simpa [Call.create?] using h
    have hseen := (hall q hq.1).resolve_left (not_not.mpr hq.2.1)
    simpa [seenIn, SeenBy, hq.2.2, Option.any_eq_true] using hseen

/-- Services are called, and the provider leaves every payment pending. -/
def LeavesPending (_ : State) (l : Label backend Call) : Prop :=
  (∀ pid c, l = .start pid c → c.isService) ∧ ∀ pid o, l = .run pid o →
    ∀ p, ∃ result, o.answer (.authorize p) = .ok result ∧ result.outcome = .pending

/-- `n` statements of process `pid`, with the identifiers from `first` on. -/
def pendingSteps (pid first n : ℕ) : List (Label backend Call) :=
  sampleSteps pid first n (.ok ⟨.pending, some "psp", none⟩) 0

/-- A payment, and a delivery for its reference after `n` statements of the call. -/
def deliveredAfter (n m k : ℕ) : List (Label backend Call) :=
  .start 0 (.create "key" (sampleRequest 3)) :: .start 1 (.webhook "ev" "sig") ::
    (pendingSteps 0 10 n ++ pendingSteps 1 200 m ++ pendingSteps 0 400 k)

theorem leavesPending_sample {n m k : ℕ} (l : Label backend Call) (hl : l ∈ deliveredAfter n m k)
    (σ : State) : LeavesPending σ l := by
  have hrun : ∀ pid first n, l ∈ pendingSteps pid first n → LeavesPending σ l := by
    intro pid first n hmem
    obtain ⟨i, -, rfl⟩ := List.mem_map.mp hmem
    refine ⟨fun _ _ h => by contradiction, ?_⟩
    intro pid o h p
    cases h
    exact ⟨_, rfl, rfl⟩
  have hstart : ∀ pid c, c.isService → l = .start pid c → LeavesPending σ l := by
    intro pid c hc hl
    subst hl
    refine ⟨?_, fun _ _ h => by contradiction⟩
    intro pid' c' h
    cases h
    exact hc
  simp only [deliveredAfter, List.mem_cons, List.mem_append] at hl
  rcases hl with hl | hl | (hl | hl) | hl
  · exact hstart 0 (.create "key" (sampleRequest 3)) trivial hl
  · exact hstart 1 (.webhook "ev" "sig") trivial hl
  · exact hrun _ _ _ hl
  · exact hrun _ _ _ hl
  · exact hrun _ _ _ hl

theorem noneLost_sample : NoneLost sampleExternals sampleDatabase := by
  intro e he
  contradiction

/-- The delivery looks the reference up after it was stored. -/
theorem no_event_lost_iff_sample :
    ∃ σ, System.Run (program sampleExternals) (Timely sampleExternals)
        (System.initial sampleDatabase []) σ ∧
      σ.db.payments.rows.map Payment.status = [.succeeded] ∧ NoneLost sampleExternals σ.db := by
  obtain ⟨σ, hexec, hend⟩ : ∃ σ, System.execWith (program sampleExternals) timelyCheck
      (deliveredAfter 45 36 0) (System.initial sampleDatabase []) = some σ ∧
      σ.db.payments.rows.map Payment.status = [.succeeded] := by
    apply Option.map_eq_some_iff.mp
    decide +kernel
  have hrun : System.Run (program sampleExternals) (Timely sampleExternals)
      (System.initial sampleDatabase []) σ := System.run_of_execWith (fun _ l => timely_of_check l) hexec
  exact ⟨σ, hrun, hend, (no_event_lost_iff noneLost_sample).1 σ hrun⟩

/-- The provider calls back before the second transaction stores its reference. -/
theorem early_event_lost :
    ¬ ∀ (ext : Externals) (db : Database) (spent : List Uuid) (σ : State), NoneLost ext db →
      System.Run (program ext) LeavesPending (System.initial db spent) σ → NoneLost ext σ.db := by
  intro hall
  obtain ⟨σ, hexec, hend⟩ : ∃ σ, System.exec (program sampleExternals) (deliveredAfter 35 9 10)
      (System.initial sampleDatabase []) = some σ ∧
      (σ.db.webhookEvents.rows, σ.db.payments.rows) = ([⟨"ev", "ev", .processed⟩],
        [⟨10, "shop", 2, 3, 50, "USD", .authorized, some "psp", 0, 0, 0⟩]) := by
    apply Option.map_eq_some_iff.mp
    decide +kernel
  obtain ⟨hevents, hpayments⟩ := Prod.mk.inj hend
  have hnone := hall sampleExternals sampleDatabase [] σ noneLost_sample
    (System.run_of_exec hexec leavesPending_sample)
  have hconcerns : Concerns sampleExternals "ev" "psp" :=
    ⟨_, "", ⟨.str "ev", .str "payment.captured", .str "psp"⟩, .capture, rfl, rfl, rfl, rfl⟩
  exact hnone ⟨"ev", "ev", .processed⟩ (by simp [hevents]) rfl "psp" hconcerns _
    (by rw [hpayments]; exact List.mem_singleton_self _) rfl rfl

end Sample

end Claim

end ApexPayments.Service
