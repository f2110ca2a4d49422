import ApexPayments.Stages

/-!
The ownership invariant. A call of `create` owns its key and its payment from its
first commit to its second: no other transaction changes either of them, and no
other call comes to own them. It follows that committed stores only grow older in
the sense of `Older`, which is what the atomic system needs to know about reads.
-/
namespace ApexPayments.Service

open Domain Store Ledger Payments Webhooks Relay RowLocking

section Growth

/-- The same event, which is published once at most. -/
structure SameEvent (e e' : Outbox) : Prop where
  content : e' = { e with publishedAt := e'.publishedAt }
  once : e.publishedAt.isSome → e' = e

theorem SameEvent.refl (e : Outbox) : SameEvent e e := ⟨rfl, fun _ => rfl⟩

theorem SameEvent.trans {e e' e'' : Outbox} (h : SameEvent e e') (h' : SameEvent e' e'') :
    SameEvent e e'' := by
  constructor
  · have hc := h.content
    have hc' := h'.content
    rw [hc] at hc'
    exact hc'
  · intro hs
    have heq := h.once hs
    rw [h'.once (heq ▸ hs), heq]

theorem sameEvent_publish {e : Outbox} (t : Time) (h : e.publishedAt = none) :
    SameEvent e (publish t e) := by
  refine ⟨rfl, fun hs => ?_⟩
  rw [h] at hs
  contradiction

/-- What holds of every later committed store. -/
structure Older (s t : Database) : Prop where
  accounts : t.accounts = s.accounts
  payments : ∀ id, (s.payments.find? id).isSome → (t.payments.find? id).isSome
  records : ∀ key r, s.idempotencyKeys.find? key = some r →
    ∃ r', t.idempotencyKeys.find? key = some r' ∧ r'.requestHash = r.requestHash ∧
      (r.status = .completed → r' = r)
  events : ∀ id e, s.webhookEvents.find? id = some e → t.webhookEvents.find? id = some e
  outbox : ∀ id e, s.outbox.find? id = some e → ∃ e', t.outbox.find? id = some e' ∧ SameEvent e e'

theorem Older.refl (s : Database) : Older s s :=
  ⟨rfl, fun _ h => h, fun _ r h => ⟨r, h, rfl, fun _ => rfl⟩, fun _ _ h => h,
    fun _ e h => ⟨e, h, .refl e⟩⟩

theorem Older.trans {s t u : Database} (h : Older s t) (h' : Older t u) : Older s u := by
  refine ⟨h'.accounts.trans h.accounts, fun id hs => h'.payments id (h.payments id hs), ?_,
    fun id e he => h'.events id e (h.events id e he), ?_⟩
  rotate_left
  · intro id e he
    obtain ⟨e₁, he₁, hsame₁⟩ := h.outbox id e he
    obtain ⟨e₂, he₂, hsame₂⟩ := h'.outbox id e₁ he₁
    exact ⟨e₂, he₂, hsame₁.trans hsame₂⟩
  intro key r hr
  obtain ⟨r₁, hr₁, hhash₁, hdone₁⟩ := h.records key r hr
  obtain ⟨r₂, hr₂, hhash₂, hdone₂⟩ := h'.records key r₁ hr₁
  refine ⟨r₂, hr₂, hhash₂.trans hhash₁, fun hst => ?_⟩
  have heq := hdone₁ hst
  rw [hdone₂ (heq ▸ hst), heq]

/-- The payment and the key that the acting call may change although it does not
create them. -/
abbrev Own := Option (Uuid × (String × String))

/-- Nothing that others own or rely on has changed. -/
structure Respects (own : Own) (s s' : Database) : Prop where
  accounts : s'.accounts = s.accounts
  payments : ∀ id, (s.payments.find? id).isSome → (s'.payments.find? id).isSome
  processing : ∀ id p, s.payments.find? id = some p → p.status = .processing →
    own.map Prod.fst ≠ some id → s'.payments.find? id = some p
  records : ∀ key r, s.idempotencyKeys.find? key = some r → own.map Prod.snd ≠ some key →
    s'.idempotencyKeys.find? key = some r
  events : ∀ id e, s.webhookEvents.find? id = some e → s'.webhookEvents.find? id = some e
  outbox : ∀ id e, s.outbox.find? id = some e → ∃ e', s'.outbox.find? id = some e' ∧ SameEvent e e'

namespace Respects

variable {own : Own} {s s' s'' : Database}

theorem refl (own : Own) (s : Database) : Respects own s s :=
  ⟨rfl, fun _ h => h, fun _ _ h _ _ => h, fun _ _ h _ => h, fun _ _ h => h,
    fun _ e h => ⟨e, h, .refl e⟩⟩

theorem trans (h : Respects own s s') (h' : Respects own s' s'') : Respects own s s'' where
  accounts := h'.accounts.trans h.accounts
  payments := fun id hs => h'.payments id (h.payments id hs)
  processing := fun id p hp hst hne => h'.processing id p (h.processing id p hp hst hne) hst hne
  records := fun key r hr hne => h'.records key r (h.records key r hr hne) hne
  events := fun id e he => h'.events id e (h.events id e he)
  outbox := by
    intro id e he
    obtain ⟨e₁, he₁, hsame₁⟩ := h.outbox id e he
    obtain ⟨e₂, he₂, hsame₂⟩ := h'.outbox id e₁ he₁
    exact ⟨e₂, he₂, hsame₁.trans hsame₂⟩

theorem of_same (h : SameRecords s s') : Respects own s s' := by
  constructor
  · exact h.accounts
  · rw [h.payments]
    exact fun _ hs => hs
  · rw [h.payments]
    exact fun _ _ hp _ _ => hp
  · rw [h.idempotencyKeys]
    exact fun _ _ hr _ => hr
  · rw [h.webhookEvents]
    exact fun _ _ he => he
  · exact fun id e he => ⟨e, h.outbox id e he, .refl e⟩

/-- Writing a payment that is new, or that is not being processed, or one's own. -/
theorem put_payment (p : Payment)
    (h : ∀ q, s.payments.find? p.id = some q → q.status = .processing →
      own.map Prod.fst = some p.id) : Respects own s (s.put (.payment p)) := by
  refine ⟨rfl, ?_, ?_, fun _ _ hr _ => hr, fun _ _ he => he, fun _ e he => ⟨e, he, .refl e⟩⟩
  · intro id hs
    change ((s.payments.put p).find? id).isSome
    by_cases hid : id = p.id
    · rw [hid, s.payments.find?_put_self p]
      rfl
    · rw [s.payments.find?_put_of_ne p id hid]
      exact hs
  · intro id q hq hst hne
    have hid : id ≠ p.id := by
      rintro rfl
      exact hne (h q hq hst)
    exact (s.payments.find?_put_of_ne p id hid).trans hq

theorem put_record (r : IdempotencyRecord)
    (h : s.idempotencyKeys.find? (r.merchantId, r.idemKey) = none ∨
      own.map Prod.snd = some (r.merchantId, r.idemKey)) :
    Respects own s (s.put (.idempotencyRecord r)) := by
  refine ⟨rfl, fun _ hs => hs, fun _ _ hp _ _ => hp, ?_, fun _ _ he => he,
    fun _ e he => ⟨e, he, .refl e⟩⟩
  intro key r' hr' hne
  have hkey : key ≠ (r.merchantId, r.idemKey) := by
    rintro rfl
    rcases h with h | h
    · rw [h] at hr'
      contradiction
    · exact hne h
  exact (s.idempotencyKeys.find?_put_of_ne r key hkey).trans hr'

theorem put_refund (r : Refund) : Respects own s (s.put (.refund r)) :=
  ⟨rfl, fun _ hs => hs, fun _ _ hp _ _ => hp, fun _ _ hr _ => hr, fun _ _ he => he,
    fun _ e he => ⟨e, he, .refl e⟩⟩

theorem put_event (e : WebhookEvent) (h : s.webhookEvents.find? e.pspEventId = none) :
    Respects own s (s.put (.webhookEvent e)) := by
  refine ⟨rfl, fun _ hs => hs, fun _ _ hp _ _ => hp, fun _ _ hr _ => hr, ?_,
    fun _ e he => ⟨e, he, .refl e⟩⟩
  intro id e' he'
  have hid : id ≠ e.pspEventId := by
    rintro rfl
    rw [h] at he'
    contradiction
  exact (s.webhookEvents.find?_put_of_ne e id hid).trans he'

theorem put_outbox {ev : Outbox} (t : Time) (hfound : s.outbox.find? ev.id = some ev)
    (hnew : ev.publishedAt = none) : Respects own s (s.put (.outbox (publish t ev))) := by
  refine ⟨rfl, fun _ hs => hs, fun _ _ hp _ _ => hp, fun _ _ hr _ => hr, fun _ _ he => he, ?_⟩
  intro id e he
  by_cases hid : id = ev.id
  · subst hid
    rw [hfound] at he
    cases he
    exact ⟨_, s.outbox.find?_put_self (publish t ev), sameEvent_publish t hnew⟩
  · exact ⟨e, (s.outbox.find?_put_of_ne (publish t ev) id hid).trans he, .refl e⟩

theorem of_moved {used ids : List Uuid} {p q : Payment} (h : Moved used s p q ids s')
    (hp : s.payments.find? p.id = some p)
    (hst : p.status = .processing → own.map Prod.fst = some p.id) : Respects own s s' := by
  have hid : q.id = p.id := by cases h <;> rfl
  refine (put_payment q ?_).trans (of_same h.same)
  intro p' hp' hst'
  rw [hid] at hp' ⊢
  rw [hp] at hp'
  cases hp'
  exact hst hst'

theorem of_reversedAll {ps : List Payment} {used used' : List Uuid}
    (h : ReversedAll ps s used s' used') (hst : ∀ p ∈ ps, p.status = .authorized) :
    Respects own s s' := by
  induction h with
  | nil s used => exact refl own s
  | cons p ps s used ids s₁ s₂ used₂ found moved rest ih =>
    refine (of_moved moved found ?_).trans (ih fun q hq => hst q (List.mem_cons_of_mem _ hq))
    intro hproc
    rw [hst p (List.mem_cons_self ..)] at hproc
    contradiction

/-- Nothing owned has changed, so the store has only grown. -/
theorem older (h : Respects none s s') : Older s s' where
  accounts := h.accounts
  payments := h.payments
  records := fun key r hr => ⟨r, h.records key r hr (by simp), rfl, fun _ => rfl⟩
  events := h.events
  outbox := h.outbox

end Respects

end Growth

section Committed

variable {F : Frame backend} {ext : Externals} {h : Head} {next : Program Reply}
  {L : Session backend}

/-- What the acting call owns. -/
def ownOf (h : Head) : Own :=
  match h.call, owned h with
  | .create k req, some p => some (p.id, (req.merchantId, k))
  | _, _ => none

theorem ownOf_start (ht : h.trace = []) : ownOf h = none := by
  have ho : owned h = none := by
    unfold owned
    rw [ht]
    cases h.call <;> rfl
  unfold ownOf
  rw [ho]
  cases h.call <;> rfl

theorem owned_answered {k : String} {req : CreatePaymentRequest} {p : Payment}
    {ws : List (Write backend)} {ans : Answer (.authorize p)} (hc : h.call = .create k req)
    (hws : insertedPayments ws = [p])
    (ht : h.trace = [.committed ws, .answered (.authorize p) ans]) : owned h = some p := by
  unfold owned
  rw [hc, ht]
  simp [hws]

theorem ownOf_owned {k : String} {req : CreatePaymentRequest} {p : Payment}
    (hc : h.call = .create k req) (ho : owned h = some p) :
    ownOf h = some (p.id, (req.merchantId, k)) := by
  unfold ownOf
  rw [hc, ho]

theorem key_of_record {s : Database} {m k : String} {r : IdempotencyRecord}
    (h : s.idempotencyKeys.find? (m, k) = some r) : (r.merchantId, r.idemKey) = (m, k) :=
  s.idempotencyKeys.key_of_find? h

/-- Every commit respects what the others own. -/
theorem respects_of_committed (hc : Committed ext F h next L) :
    Respects (ownOf h) F.hi (view F.hi L.flushed) := by
  cases hc with
  | replayed k req r resp hc ht hr =>
    rw [hr.flushed]
    exact .refl _ _
  | opened k req p txn event hc ht ho =>
    have hclaim : Respects (ownOf h) F.hi (F.hi.put (.idempotencyRecord
        (inProgress req.merchantId k (ext.hash (.create req))))) :=
      .put_record _ (Or.inl ho.record_fresh)
    refine (hclaim.trans (.put_payment p ?_)).trans (.of_same ho.effect.same)
    intro q hq
    have hfresh := ho.payment_fresh
    change F.hi.payments.find? p.id = some q at hq
    rw [hfresh] at hq
    contradiction
  | resolved k req p p' ws result hc hws ht hr =>
    have hown := ownOf_owned hc (owned_answered hc hws ht)
    obtain ⟨ids, s₁, hmoved, _, heffect⟩ := hr.effect
    have hid : p'.id = p.id := Table.key_of_find? hr.found
    have hmove : Respects (ownOf h) F.hi s₁ := by
      refine .of_moved hmoved (by rw [hid]; exact hr.found) fun _ => ?_
      rw [hown, hid]
      rfl
    rcases heffect with ⟨s, _, _, hview⟩ | ⟨r, hfind, hview⟩
    · rw [hview]
      exact hmove
    · rw [hview]
      refine hmove.trans (.put_record _ (Or.inr ?_))
      rw [hown]
      exact congrArg some (key_of_record hfind).symm
  | refundReplayed k id req hc ht hr =>
    rw [hr.1]
    exact .refl _ _
  | refunded k id req p r txn event hc ht hr =>
    rw [ownOf_start ht]
    obtain ⟨s₁, htrans, hview⟩ := hr.effect
    have hclaim : Respects none F.hi (F.hi.put (.idempotencyRecord (inProgress "merchant_refund" k
        (ext.hash (.refund id req.amount))))) := .put_record _ (Or.inl hr.record_fresh)
    have hid : p.id = id := Table.key_of_find? hr.found
    have hpay : Respects none F.hi s₁ := by
      refine ((hclaim.trans (.put_refund r)).trans (.put_payment _ ?_)).trans (.of_same htrans.same)
      intro q hq hst
      change F.hi.payments.find? p.id = some q at hq
      rw [hid, hr.found] at hq
      cases hq
      rcases hr.allowed with ha | ha <;> rw [ha] at hst <;> contradiction
    rw [hview]
    have hkeys : s₁.idempotencyKeys = F.hi.idempotencyKeys.put
        (inProgress "merchant_refund" k (ext.hash (.refund id req.amount))) :=
      htrans.same.idempotencyKeys
    refine ⟨hpay.accounts, hpay.payments, hpay.processing, ?_, hpay.events, hpay.outbox⟩
    intro key r' hr' _
    have hkey : key ≠ ("merchant_refund", k) := by
      rintro rfl
      rw [hr.record_fresh] at hr'
      contradiction
    refine (s₁.idempotencyKeys.find?_put_of_ne _ key hkey).trans ?_
    rw [hkeys]
    exact (F.hi.idempotencyKeys.find?_put_of_ne _ key hkey).trans hr'
  | webhook rawBody signature event eventId i hc ht hw hp =>
    rcases hw.effect with hfl | hrec
    · rw [hfl]
      exact .refl _ _
    · have hput : Respects (ownOf h) F.hi
          (F.hi.put (.webhookEvent ⟨eventId, rawBody, .processed⟩)) :=
        .put_event _ hrec.fresh
      have hview : view F.hi L.flushed = F.working L := (Frame.working_of_pending L hp).symm
      rw [hview]
      cases hrec.applied with
      | unreferenced hfalsy hwork hused => exact hwork ▸ hput
      | looked reference store ps href hne hlook hsnap htrans =>
        generalize F.working L = s₁ at htrans ⊢
        generalize usedBy F L = used₁ at htrans
        have hcur : ∀ p ∈ ps, F.hi.payments.find? p.id = some p := fun p hp =>
          (hlook.current p hp).2
        cases htrans with
        | idle hidle => exact hput
        | captured p ids s' hps hst hkind hmoved =>
          refine hput.trans (.of_moved hmoved (hcur p (hps ▸ List.mem_singleton_self p)) ?_)
          intro hproc
          rw [hst] at hproc
          contradiction
        | failed p ids s' hps hst hkind hmoved =>
          refine hput.trans (.of_moved hmoved (hcur p (hps ▸ List.mem_singleton_self p)) ?_)
          intro hproc
          rw [hst] at hproc
          contradiction
  | expired timeoutMinutes ps hc ht he =>
    exact .of_reversedAll he.reversed fun p hp => (he.stale p hp).1
  | posted type referenceId postings txn hc ht hp =>
    refine .of_same ?_
    have hs := hp.posted.elsewhere
    unfold SameElsewhere at hs
    rw [hs]
    exact ⟨rfl, rfl, rfl, rfl, rfl, fun _ _ he => he⟩
  | drained batchSize evs t hc ht hd =>
    obtain ⟨s, order, hdrawn⟩ := hd.select
    rw [hd.flushed]
    exact publishAll_induction (Respects.refl _) (fun _ _ _ => Respects.trans) t
      (fun _ _ => Respects.put_outbox t) hdrawn.nodup hdrawn.current

end Committed

section Invariant

variable {ext : Externals}

/-- The service with its transactions executed in one piece. -/
abbrev Moment := Atomic backend Call Reply

/-- What is left of a payment `p` that a call of `create` has opened. -/
structure Holds (ext : Externals) (s : Database) (k : String) (req : CreatePaymentRequest)
    (p : Payment) (h : Head) : Prop where
  made : ∃ createdAt, p = held (newPayment p.id req createdAt)
  payment : (s.payments.find? p.id).isSome
  record : (s.idempotencyKeys.find? (req.merchantId, k)).isSome
  unresolved : owned h = some p → s.payments.find? p.id = some p ∧
    s.idempotencyKeys.find? (req.merchantId, k) =
      some (inProgress req.merchantId k (ext.hash (.create req))) ∧
    (h.since.idempotencyKeys.find? (req.merchantId, k)).isSome
  resolved : owned h = none → ∃ resp, h.base = pure (.payment 201 resp) ∧ resp.id = p.id ∧
    s.idempotencyKeys.find? (req.merchantId, k) = some (completed p.id 201 (.payment resp)
      (inProgress req.merchantId k (ext.hash (.create req))))

structure Owned (ext : Externals) (a : Moment) : Prop where
  stage : ∀ pid h, a.heads pid = some h → Stage ext h.call h.base h.trace
  holds : ∀ pid h k req p, a.heads pid = some h → h.call = .create k req →
    openedBy h = some p → Holds ext a.db k req p h
  payments_once : ∀ pid pid' h h' p p', a.heads pid = some h → a.heads pid' = some h' →
    openedBy h = some p → openedBy h' = some p' → p.id = p'.id → pid = pid'
  keys_once : ∀ pid pid' h h' k req req' p p', a.heads pid = some h → a.heads pid' = some h' →
    h.call = .create k req → h'.call = .create k req' → req.merchantId = req'.merchantId →
    openedBy h = some p → openedBy h' = some p' → pid = pid'

theorem owned_of_ownOf {h : Head} {x : Uuid × (String × String)} (ho : ownOf h = some x) :
    ∃ k req p, h.call = .create k req ∧ owned h = some p ∧ x = (p.id, (req.merchantId, k)) := by
  unfold ownOf at ho
  split at ho
  · rename_i k req p hc hp
    cases ho
    exact ⟨k, req, p, hc, hp, rfl⟩
  · contradiction

theorem openedBy_of_owned {h : Head} {p : Payment} (ho : owned h = some p) :
    openedBy h = some p := by
  unfold owned at ho
  unfold openedBy
  split at ho
  · rename_i hc ht
    rw [hc, ht]
    exact ho
  · rename_i hc ht
    rw [hc, ht]
    exact ho
  · contradiction

/-- Only a call of `create` opens a payment. -/
theorem create_of_openedBy {h : Head} {p : Payment} (ho : openedBy h = some p) :
    ∃ k req, h.call = .create k req := by
  unfold openedBy at ho
  split at ho
  · rename_i k req _ _ hc _
    exact ⟨k, req, hc⟩
  · contradiction

theorem Holds.mono {s s' : Database} {own : Own} {k : String} {req : CreatePaymentRequest}
    {p : Payment} {h : Head} (hh : Holds ext s k req p h) (hr : Respects own s s')
    (hid : own.map Prod.fst ≠ some p.id) (hkey : own.map Prod.snd ≠ some (req.merchantId, k)) :
    Holds ext s' k req p h where
  made := hh.made
  payment := hr.payments _ hh.payment
  record := by
    obtain ⟨r, hfind⟩ := Option.isSome_iff_exists.mp hh.record
    rw [hr.records _ r hfind hkey]
    rfl
  unresolved := by
    intro ho
    obtain ⟨hp, hrec, hsince⟩ := hh.unresolved ho
    have hst : p.status = .processing := by
      obtain ⟨t, ht⟩ := hh.made
      rw [ht]
      rfl
    exact ⟨hr.processing _ _ hp hst hid, hr.records _ _ hrec hkey, hsince⟩
  resolved := by
    intro ho
    obtain ⟨resp, hbase, hresp, hrec⟩ := hh.resolved ho
    exact ⟨resp, hbase, hresp, hr.records _ _ hrec hkey⟩

/-- The same call at a later boundary, with nothing changed for it. -/
theorem Holds.congr {s : Database} {k : String} {req : CreatePaymentRequest} {p : Payment}
    {h h' : Head} (hh : Holds ext s k req p h) (ho : owned h = some p) (ho' : owned h' = some p)
    (hsince : h'.since = s) : Holds ext s k req p h' where
  made := hh.made
  payment := hh.payment
  record := hh.record
  unresolved := fun _ => ⟨(hh.unresolved ho).1, (hh.unresolved ho).2.1, by
    rw [hsince]
    exact hh.record⟩
  resolved := fun hn => by
    rw [ho'] at hn
    contradiction

/-- The invariant after one process moves to `h'` and the store to `db'`. -/
theorem Owned.update {a a' : Moment} {pid : ℕ} {h' : Head} (hinv : Owned ext a)
    (hheads : a'.heads = Function.update a.heads pid (some h'))
    (hstage : Stage ext h'.call h'.base h'.trace)
    (hself : ∀ k req p, h'.call = .create k req → openedBy h' = some p →
      Holds ext a'.db k req p h')
    (hothers : ∀ pid' h k req p, pid' ≠ pid → a.heads pid' = some h → h.call = .create k req →
      openedBy h = some p → Holds ext a'.db k req p h ∧
        (∀ p', openedBy h' = some p' → p.id ≠ p'.id) ∧
        ∀ req' p', h'.call = .create k req' → openedBy h' = some p' →
          req.merchantId ≠ req'.merchantId) : Owned ext a' := by
  have hown : a'.heads pid = some h' := by rw [hheads, Function.update_self]
  have hother : ∀ pid', pid' ≠ pid → a'.heads pid' = a.heads pid' := by
    intro pid' hne
    rw [hheads, Function.update_of_ne hne]
  refine ⟨?_, ?_, ?_, ?_⟩
  · intro pid' h hp
    by_cases hne : pid' = pid
    · subst hne
      rw [hown] at hp
      cases hp
      exact hstage
    · rw [hother pid' hne] at hp
      exact hinv.stage pid' h hp
  · intro pid' h k req p hp hc ho
    by_cases hne : pid' = pid
    · subst hne
      rw [hown] at hp
      cases hp
      exact hself k req p hc ho
    · rw [hother pid' hne] at hp
      exact (hothers pid' h k req p hne hp hc ho).1
  · intro pid₁ pid₂ h₁ h₂ p₁ p₂ hp₁ hp₂ ho₁ ho₂ hid
    by_cases e₁ : pid₁ = pid <;> by_cases e₂ : pid₂ = pid
    · rw [e₁, e₂]
    · subst e₁
      rw [hown] at hp₁
      cases hp₁
      rw [hother pid₂ e₂] at hp₂
      obtain ⟨k, req, hc⟩ := create_of_openedBy ho₂
      exact absurd hid.symm ((hothers pid₂ h₂ k req p₂ e₂ hp₂ hc ho₂).2.1 p₁ ho₁)
    · subst e₂
      rw [hown] at hp₂
      cases hp₂
      rw [hother pid₁ e₁] at hp₁
      obtain ⟨k, req, hc⟩ := create_of_openedBy ho₁
      exact absurd hid ((hothers pid₁ h₁ k req p₁ e₁ hp₁ hc ho₁).2.1 p₂ ho₂)
    · rw [hother pid₁ e₁] at hp₁
      rw [hother pid₂ e₂] at hp₂
      exact hinv.payments_once pid₁ pid₂ h₁ h₂ p₁ p₂ hp₁ hp₂ ho₁ ho₂ hid
  · intro pid₁ pid₂ h₁ h₂ k req₁ req₂ p₁ p₂ hp₁ hp₂ hc₁ hc₂ hm ho₁ ho₂
    by_cases e₁ : pid₁ = pid <;> by_cases e₂ : pid₂ = pid
    · rw [e₁, e₂]
    · subst e₁
      rw [hown] at hp₁
      cases hp₁
      rw [hother pid₂ e₂] at hp₂
      exact absurd hm.symm ((hothers pid₂ h₂ k req₂ p₂ e₂ hp₂ hc₂ ho₂).2.2 req₁ p₁ hc₁ ho₁)
    · subst e₂
      rw [hown] at hp₂
      cases hp₂
      rw [hother pid₁ e₁] at hp₁
      exact absurd hm ((hothers pid₁ h₁ k req₁ p₁ e₁ hp₁ hc₁ ho₁).2.2 req₂ p₂ hc₂ ho₂)
    · rw [hother pid₁ e₁] at hp₁
      rw [hother pid₂ e₂] at hp₂
      exact hinv.keys_once pid₁ pid₂ h₁ h₂ k req₁ req₂ p₁ p₂ hp₁ hp₂ hc₁ hc₂ hm ho₁ ho₂

/-- A step that changes neither the store nor what its process has opened. -/
theorem Owned.same {a : Moment} {pid : ℕ} {h h' : Head} (hinv : Owned ext a)
    (hp : a.heads pid = some h) (hcall : h'.call = h.call) (hopen : openedBy h' = openedBy h)
    (hown : ∀ p, openedBy h = some p → owned h = some p ∧ owned h' = some p)
    (hsince : h'.since = a.db) (hstage : Stage ext h'.call h'.base h'.trace) :
    Owned ext (a.put pid h') := by
  refine hinv.update rfl hstage ?_ ?_
  · intro k req p hc ho
    rw [hopen] at ho
    rw [hcall] at hc
    exact (hinv.holds pid h k req p hp hc ho).congr (hown p ho).1 (hown p ho).2 hsince
  · intro pid' h₂ k req p hne hp₂ hc ho
    refine ⟨hinv.holds pid' h₂ k req p hp₂ hc ho, ?_, ?_⟩
    · intro p' ho' hid
      rw [hopen] at ho'
      exact hne (hinv.payments_once pid' pid h₂ h p p' hp₂ hp ho ho' hid)
    · intro req' p' hc' ho' hm
      rw [hopen] at ho'
      rw [hcall] at hc'
      exact hne (hinv.keys_once pid' pid h₂ h k req req' p p' hp₂ hp hc hc' hm ho ho')

end Invariant

section Steps

variable {ext : Externals} {skips : Key → Prop} {a : Moment} {pid : ℕ} {h : Head}

theorem openedBy_create {h : Head} {k : String} {req : CreatePaymentRequest}
    {ws : List (Write backend)} {es : List (RowLocking.Event backend)}
    (hc : h.call = .create k req) (ht : h.trace = .committed ws :: es) :
    openedBy h = (insertedPayments ws).head? := by
  unfold openedBy
  rw [hc, ht]

theorem openedBy_other {h : Head} (hc : ¬ h.call.isCreate) : openedBy h = none := by
  unfold openedBy
  cases hcall : h.call with
  | create k req => exact absurd (by rw [hcall]; trivial) hc
  | _ => rfl

/-- A call that has opened a payment and has not ended still owns it. -/
theorem owned_of_active {h : Head} (hs : Stage ext h.call h.base h.trace)
    (hv : ∀ v, h.base ≠ .pure v) (he : ∀ e, h.base ≠ .raise e) {p : Payment}
    (ho : openedBy h = some p) : owned h = some p := by
  obtain ⟨call, since, base, trace⟩ := h
  dsimp only at hs hv he
  cases hs with
  | start c =>
    unfold openedBy at ho
    cases call <;> contradiction
  | held k req p ws hws => exact ho
  | answered k req p ws result hws => exact ho
  | failed c e => exact absurd rfl (he e)
  | stranded k req p ws e hws => exact absurd rfl (he e)
  | strandedLate k req p ws ans e hws => exact absurd rfl (he e)
  | returned c reply ws hc => exact absurd rfl (hv reply)
  | replayed k req code resp => exact absurd rfl (hv _)
  | resolved k req p ws ws₂ ans resp hws hws₂ => exact absurd rfl (hv _)

/-- A commit leaves alone what the other calls have opened. -/
theorem holds_others (hinv : Owned ext a) (hp : a.heads pid = some h) {s' : Database}
    (hr : Respects (ownOf h) a.db s') {pid' : ℕ} {h₂ : Head} {k : String}
    {req : CreatePaymentRequest} {p : Payment} (hne : pid' ≠ pid) (hp₂ : a.heads pid' = some h₂)
    (hc : h₂.call = .create k req) (ho : openedBy h₂ = some p) : Holds ext s' k req p h₂ := by
  refine (hinv.holds pid' h₂ k req p hp₂ hc ho).mono hr ?_ ?_
  · intro hid
    obtain ⟨x, hx, hxid⟩ := Option.map_eq_some_iff.mp hid
    obtain ⟨k₀, req₀, p₀, hc₀, ho₀, rfl⟩ := owned_of_ownOf hx
    exact hne (hinv.payments_once pid' pid h₂ h p p₀ hp₂ hp ho (openedBy_of_owned ho₀) hxid.symm)
  · intro hkey
    obtain ⟨x, hx, hxkey⟩ := Option.map_eq_some_iff.mp hkey
    obtain ⟨k₀, req₀, p₀, hc₀, ho₀, rfl⟩ := owned_of_ownOf hx
    obtain ⟨hm, hk⟩ := Prod.mk.inj hxkey
    subst hk
    exact hne (hinv.keys_once pid' pid h₂ h k₀ req req₀ p p₀ hp₂ hp hc hc₀ hm.symm ho
      (openedBy_of_owned ho₀))

/-- The commit of a call that opens nothing and owns nothing. -/
theorem owned_plain (hinv : Owned ext a) (hp : a.heads pid = some h) {h' : Head} {s' : Database}
    {spent' : List Uuid} (hr : Respects (ownOf h) a.db s') (hopen : openedBy h' = none)
    (hstage : Stage ext h'.call h'.base h'.trace) :
    Owned ext { a.put pid h' with db := s', spent := spent' } := by
  refine hinv.update rfl hstage ?_ ?_
  · intro k req p _ ho
    rw [hopen] at ho
    contradiction
  · intro pid' h₂ k req p hne hp₂ hc ho
    refine ⟨holds_others hinv hp hr hne hp₂ hc ho, ?_, ?_⟩
    · intro p' ho'
      rw [hopen] at ho'
      contradiction
    · intro req' p' _ ho'
      rw [hopen] at ho'
      contradiction

theorem owned_opened (hinv : Owned ext a) (hp : a.heads pid = some h) {k : String}
    {req : CreatePaymentRequest} {p : Payment} {txn : LedgerTransaction} {event : Outbox}
    {next : Program Reply} {L : Session backend} {spent' : List Uuid}
    (hc : h.call = .create k req) (ht : h.trace = [])
    (ho : Opens (a.frame Older skips h) ext k req p txn event next L)
    (hr : Respects (ownOf h) a.db (view a.db L.flushed))
    (hstage : Stage ext h.call next (h.trace ++ [.committed L.flushed])) :
    Owned ext { a.put pid (h.resume (view a.db L.flushed) next [.committed L.flushed]) with
      db := view a.db L.flushed
      spent := spent' } := by
  set h' := h.resume (view a.db L.flushed) next [.committed L.flushed] with hh'
  have htrace : h'.trace = [.committed L.flushed] := by
    change h.trace ++ _ = _
    rw [ht]
    rfl
  have hopen : openedBy h' = some p := by
    rw [openedBy_create (h := h') hc htrace, ho.opened]
    rfl
  have hown : owned h' = some p := by
    unfold owned
    rw [htrace, show h'.call = _ from hc]
    simp [ho.opened]
  have hsame := ho.effect.same
  have hpay : (view a.db L.flushed).payments.find? p.id = some p := by
    change (view (a.frame Older skips h).hi L.flushed).payments.find? p.id = some p
    rw [hsame.payments]
    exact Table.find?_put_self _ p
  have hrec : (view a.db L.flushed).idempotencyKeys.find? (req.merchantId, k) =
      some (inProgress req.merchantId k (ext.hash (.create req))) := by
    change (view (a.frame Older skips h).hi L.flushed).idempotencyKeys.find? (req.merchantId, k) = _
    rw [hsame.idempotencyKeys]
    exact Table.find?_put_self a.db.idempotencyKeys (inProgress req.merchantId k _)
  refine hinv.update rfl hstage ?_ ?_
  · intro k' req' p' hc' ho'
    rw [show h'.call = _ from hc] at hc'
    cases hc'
    rw [hopen] at ho'
    cases ho'
    refine ⟨ho.payment, ?_, ?_, fun _ => ⟨hpay, hrec, ?_⟩, ?_⟩
    · exact Option.isSome_iff_exists.mpr ⟨p, hpay⟩
    · exact Option.isSome_iff_exists.mpr ⟨_, hrec⟩
    · exact Option.isSome_iff_exists.mpr ⟨_, hrec⟩
    · intro hn
      rw [hown] at hn
      contradiction
  · intro pid' h₂ k₂ req₂ p₂ hne hp₂ hc₂ ho₂
    have hold := hinv.holds pid' h₂ k₂ req₂ p₂ hp₂ hc₂ ho₂
    refine ⟨holds_others hinv hp hr hne hp₂ hc₂ ho₂, ?_, ?_⟩
    · intro p' ho' hid
      rw [hopen] at ho'
      cases ho'
      have hfresh := ho.payment_fresh
      have hsome := hold.payment
      rw [hid] at hsome
      change (a.db.payments.find? p.id) = none at hfresh
      rw [hfresh] at hsome
      contradiction
    · intro req' p' hc' _ hm
      rw [show h'.call = _ from hc] at hc'
      cases hc'
      have hfresh := ho.record_fresh
      have hsome := hold.record
      rw [hm] at hsome
      change a.db.idempotencyKeys.find? (req.merchantId, k) = none at hfresh
      rw [hfresh] at hsome
      contradiction

/-- What the second transaction of a call did, given that the call owned its payment. -/
theorem resolves_owned (hinv : Owned ext a) (hp : a.heads pid = some h) {k : String}
    {req : CreatePaymentRequest} {p p' : Payment} {result : AuthorizationResult}
    {next : Program Reply} {L : Session backend} (hc : h.call = .create k req)
    (ho : owned h = some p) (hr : Resolves (a.frame Older skips h) k req p.id result p' next L) :
    p' = p ∧ ∃ ids s₁, Moved a.spent a.db p (decided result p) ids s₁ ∧
      L.drawn ++ a.spent = ids ++ a.spent ∧
      view a.db L.flushed = s₁.put (.idempotencyRecord (completed p.id 201
        (.payment (toResponse (decided result p)))
        (inProgress req.merchantId k (ext.hash (.create req))))) := by
  have hold := hinv.holds pid h k req p hp hc (openedBy_of_owned ho)
  obtain ⟨hpay, hrec, hsince⟩ := hold.unresolved ho
  have hfound : a.db.payments.find? p.id = some p' := hr.found
  rw [hpay] at hfound
  obtain rfl := Option.some.inj hfound
  refine ⟨rfl, ?_⟩
  obtain ⟨ids, s₁, hmoved, hused, ⟨s, hs, hnone, _⟩ | ⟨r, hfind, hview⟩⟩ := hr.effect
  · obtain ⟨r, hr⟩ := Option.isSome_iff_exists.mp hsince
    obtain ⟨r', hr', _⟩ := hs.1.records _ r hr
    rw [hnone] at hr'
    contradiction
  · change a.db.idempotencyKeys.find? (req.merchantId, k) = some r at hfind
    rw [hrec] at hfind
    obtain rfl := Option.some.inj hfind
    exact ⟨ids, s₁, hmoved, hused, hview⟩

theorem owned_resolved (hinv : Owned ext a) (hp : a.heads pid = some h) {k : String}
    {req : CreatePaymentRequest} {p p' : Payment} {ws : List (Write backend)}
    {result : AuthorizationResult} {next : Program Reply} {L : Session backend}
    {spent' : List Uuid} (hc : h.call = .create k req) (hws : insertedPayments ws = [p])
    (ht : h.trace = [.committed ws, .answered (.authorize p) (.ok result)])
    (hres : Resolves (a.frame Older skips h) k req p.id result p' next L)
    (hr : Respects (ownOf h) a.db (view a.db L.flushed))
    (hstage : Stage ext h.call next (h.trace ++ [.committed L.flushed])) :
    Owned ext { a.put pid (h.resume (view a.db L.flushed) next [.committed L.flushed]) with
      db := view a.db L.flushed
      spent := spent' } := by
  set h' := h.resume (view a.db L.flushed) next [.committed L.flushed] with hh'
  have howned : owned h = some p := owned_answered hc hws ht
  have hopened : openedBy h = some p := openedBy_of_owned howned
  have hopen : openedBy h' = some p := by
    have htrace : h'.trace = [.committed ws, .answered (.authorize p) (.ok result),
        .committed L.flushed] := by
      change h.trace ++ _ = _
      rw [ht]
      rfl
    have hcall : h'.call = .create k req := hc
    rw [openedBy_create hcall htrace, hws]
    rfl
  have hown : owned h' = none := by
    unfold owned
    rw [show h'.trace = _ from congrArg (· ++ _) ht, show h'.call = _ from hc]
    rfl
  obtain ⟨rfl, ids, s₁, hmoved, _, hview⟩ := resolves_owned hinv hp hc howned hres
  have hold := hinv.holds pid h k req p' hp hc hopened
  have hid := id_decided result p'
  refine hinv.update rfl hstage ?_ ?_
  · intro k' req' p hc' ho'
    rw [show h'.call = _ from hc] at hc'
    cases hc'
    rw [hopen] at ho'
    cases ho'
    have hrec : (view a.db L.flushed).idempotencyKeys.find? (req.merchantId, k) =
        some (completed p'.id 201 (.payment (toResponse (decided result p')))
          (inProgress req.merchantId k (ext.hash (.create req)))) := by
      rw [hview]
      exact Table.find?_put_self _ (completed p'.id 201 _ (inProgress req.merchantId k _))
    refine ⟨hold.made, hr.payments _ hold.payment, ?_, ?_, ?_⟩
    · exact Option.isSome_iff_exists.mpr ⟨_, hrec⟩
    · intro ho
      rw [hown] at ho
      contradiction
    · exact fun _ => ⟨_, hres.next, hid, hrec⟩
  · intro pid' h₂ k₂ req₂ p₂ hne hp₂ hc₂ ho₂
    refine ⟨holds_others hinv hp hr hne hp₂ hc₂ ho₂, ?_, ?_⟩
    · intro p ho' hid
      rw [hopen] at ho'
      cases ho'
      exact hne (hinv.payments_once pid' pid h₂ h p₂ p' hp₂ hp ho₂ hopened hid)
    · intro req' p hc' _ hm
      rw [show h'.call = _ from hc] at hc'
      cases hc'
      exact hne (hinv.keys_once pid' pid h₂ h k req₂ req p₂ p' hp₂ hp hc₂ hc hm ho₂ hopened)

/-- Committed stores only grow older. -/
theorem older_of_committed (hinv : Owned ext a) (hp : a.heads pid = some h)
    {next : Program Reply} {L : Session backend}
    (hc : Committed ext (a.frame Older skips h) h next L) : Older a.db (view a.db L.flushed) := by
  have hr : Respects (ownOf h) a.db (view a.db L.flushed) := respects_of_committed hc
  cases hown : ownOf h with
  | none =>
    rw [hown] at hr
    exact hr.older
  | some x =>
    rw [hown] at hr
    obtain ⟨k, req, p, hcall, howned, rfl⟩ := owned_of_ownOf hown
    refine ⟨hr.accounts, hr.payments, ?_, hr.events, hr.outbox⟩
    intro key r hfind
    by_cases hkey : key = (req.merchantId, k)
    · subst hkey
      have hold := hinv.holds pid h k req p hp hcall (openedBy_of_owned howned)
      have hrec := (hold.unresolved howned).2.1
      rw [hfind] at hrec
      obtain rfl := Option.some.inj hrec
      have hstart : h.trace ≠ [] := by
        intro ht
        rw [ownOf_start ht] at hown
        contradiction
      cases hc with
      | resolved k₁ req₁ p₁ p₁' ws result hc₁ hws ht hres =>
        rw [hcall] at hc₁
        cases hc₁
        have howned₁ := owned_answered hcall hws ht
        rw [howned] at howned₁
        cases howned₁
        obtain ⟨rfl, ids, s₁, _, _, hview⟩ := resolves_owned hinv hp hcall howned hres
        refine ⟨completed p₁'.id 201 (.payment (toResponse (decided result p₁')))
          (inProgress req.merchantId k (ext.hash (.create req))), ?_, rfl, fun hst => ?_⟩
        · rw [hview]
          exact Table.find?_put_self _ (completed p₁'.id 201 _ (inProgress req.merchantId k _))
        · contradiction
      | replayed k₁ req₁ r resp hc₁ ht hres => exact absurd ht hstart
      | opened k₁ req₁ p₁ txn event hc₁ ht ho => exact absurd ht hstart
      | refundReplayed k₁ id req₁ hc₁ ht hr₁ => exact absurd ht hstart
      | refunded k₁ id req₁ p₁ r txn event hc₁ ht hr₁ => exact absurd ht hstart
      | webhook rawBody signature event eventId i hc₁ ht hw hp₁ => exact absurd ht hstart
      | expired t ps hc₁ ht he => exact absurd ht hstart
      | posted type ref postings txn hc₁ ht hp₁ => exact absurd ht hstart
      | drained batchSize evs t hc₁ ht hd => exact absurd ht hstart
    · refine ⟨r, hr.records key r hfind ?_, rfl, fun _ => rfl⟩
      intro hk
      exact hkey (Option.some.inj hk).symm

/-- Every whole transaction keeps the ownership invariant and the order of stores. -/
theorem owned_step (hinv : Owned ext a) {act : Atomic.Act backend Call} {a' : Moment}
    (hs : Atomic.Step (program ext) Older skips a act a') : Owned ext a' ∧ Older a.db a'.db := by
  cases hs with
  | start pid c hp =>
    refine ⟨hinv.update rfl (.start c) ?_ ?_, Older.refl _⟩
    · intro k req p _ ho
      unfold openedBy at ho
      split at ho
      · rename_i ht
        contradiction
      · contradiction
    · intro pid' h₂ k req p hne hp₂ hc ho
      have hnone : ∀ p', openedBy (⟨c, a.db, program ext c, []⟩ : Head) ≠ some p' := by
        intro p' ho'
        unfold openedBy at ho'
        split at ho'
        · rename_i ht
          contradiction
        · contradiction
      exact ⟨hinv.holds pid' h₂ k req p hp₂ hc ho, fun p' ho' => absurd ho' (hnone p'),
        fun _ p' _ ho' => absurd ho' (hnone p')⟩
  | call pid h q next ans L hp ho hr =>
    obtain ⟨k, req, p, ws, hc, hb, ht, hws⟩ := calling_of_stage (hinv.stage pid h hp) hr
    rw [hb] at hr
    have hstage : Stage ext (.create k req) (next ans) _ := stage_after_call hws ans hr
    have htrace : (h.resume a.db (next ans) [.answered q ans]).trace =
        [.committed ws, .answered q ans] := by
      change h.trace ++ _ = _
      rw [ht]
      rfl
    refine ⟨hinv.same hp rfl ?_ ?_ rfl ?_, Older.refl _⟩
    · rw [openedBy_create (h := h.resume a.db (next ans) [.answered q ans]) hc htrace,
        openedBy_create hc ht]
    · intro p' ho'
      rw [openedBy_create hc ht] at ho'
      constructor
      · unfold owned
        rw [hc, ht]
        exact ho'
      · unfold owned
        rw [htrace, show (h.resume a.db (next ans) [.answered q ans]).call = _ from hc]
        exact ho'
    · rw [htrace, show (h.resume a.db (next ans) [.answered q ans]).call = _ from hc]
      exact hstage
  | commit pid h next L hp ho hr =>
    have hc := committed_of_stage (hinv.stage pid h hp) hr
    have hresp : Respects (ownOf h) a.db (view a.db L.flushed) := respects_of_committed hc
    have hstage := stage_after_commit hc
    refine ⟨?_, older_of_committed hinv hp hc⟩
    cases hc with
    | opened k req p txn event hcall ht hopens =>
      exact owned_opened hinv hp hcall ht hopens hresp hstage
    | resolved k req p p' ws result hcall hws ht hres =>
      exact owned_resolved hinv hp hcall hws ht hres hresp hstage
    | replayed k req r resp hcall ht hrep =>
      refine owned_plain hinv hp hresp ?_ hstage
      unfold openedBy Header.resume
      rw [hcall, ht, hrep.flushed]
      rfl
    | refundReplayed k id req hcall ht hr₁ =>
      refine owned_plain hinv hp hresp (openedBy_other ?_) hstage
      simp [Header.resume, hcall, Call.isCreate]
    | refunded k id req p r txn event hcall ht hr₁ =>
      refine owned_plain hinv hp hresp (openedBy_other ?_) hstage
      simp [Header.resume, hcall, Call.isCreate]
    | webhook rawBody signature event eventId i hcall ht hw hp₁ =>
      refine owned_plain hinv hp hresp (openedBy_other ?_) hstage
      simp [Header.resume, hcall, Call.isCreate]
    | expired t ps hcall ht he =>
      refine owned_plain hinv hp hresp (openedBy_other ?_) hstage
      simp [Header.resume, hcall, Call.isCreate]
    | posted type ref postings txn hcall ht hp₁ =>
      refine owned_plain hinv hp hresp (openedBy_other ?_) hstage
      simp [Header.resume, hcall, Call.isCreate]
    | drained batchSize evs t hcall ht hd =>
      refine owned_plain hinv hp hresp (openedBy_other ?_) hstage
      simp [Header.resume, hcall, Call.isCreate]
  | fail pid h e hp ho hr hv he =>
    have hstage := stage_after_failure (hinv.stage pid h hp) hv he e
    have htrace : (h.resume a.db (.raise e) []).trace = h.trace := List.append_nil _
    refine ⟨hinv.same hp rfl ?_ ?_ rfl ?_, Older.refl _⟩
    · unfold openedBy
      rw [htrace]
      rfl
    · intro p ho'
      have howned := owned_of_active (hinv.stage pid h hp) hv he ho'
      refine ⟨howned, ?_⟩
      unfold owned at howned ⊢
      rw [htrace]
      exact howned
    · rw [htrace]
      exact hstage

end Steps

end ApexPayments.Service
