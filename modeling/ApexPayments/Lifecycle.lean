import ApexPayments.BalanceReports
import ApexPayments.InFlight
import ApexPayments.Publishing
import Mathlib.Logic.Relation

/-!
The life of a payment between any two states of a run, and what two readings of it through the API
may show: its terms stay, its status only goes forward, and the refunded amount and the version
never fall.
-/
namespace ApexPayments.Service

open Domain Store Ledger Payments RowLocking

section Endpoint

/-- `PaymentService.get_payment`. -/
def getPayment (paymentId : Uuid) : Program PaymentResponse := do
  match ← Prog.select (B := backend) fun s => s.payments.find? paymentId with
  | none => raise (.paymentNotFound paymentId)
  | some payment => pure (toResponse payment)

theorem returns_payment_iff {s : Database} {id : Uuid} {r : PaymentResponse} :
    Returns (getPayment id) s r ↔ ∃ p, s.payments.find? id = some p ∧ r = toResponse p := by
  unfold Returns getPayment
  simp only [Prog.runs_select_alone (B := backend) (s := s) (L := .fresh backend) (by simp [Session.fresh])]
  change (∃ L, (match s.payments.find? id with
    | none => raise (.paymentNotFound id)
    | some payment => pure (toResponse payment) : Program PaymentResponse).Runs _ _ (.value r L)) ↔ _
  cases hfind : s.payments.find? id with
  | none =>
    constructor
    · intro h
      obtain ⟨L, hL⟩ := h
      contradiction
    · intro h
      obtain ⟨p, hp, -⟩ := h
      contradiction
  | some p =>
    constructor
    · intro h
      obtain ⟨L, hL⟩ := h
      cases hL
      exact ⟨p, rfl, rfl⟩
    · intro h
      obtain ⟨q, hq, rfl⟩ := h
      cases hq
      exact ⟨_, rfl⟩

end Endpoint

section Evolution

/-- The steps of a payment's status. `FAILED` and `REFUNDED` have no step. -/
inductive Advances : PaymentStatus → PaymentStatus → Prop
  | parked : Advances .processing .authorized
  | settled (st : PaymentStatus) (h : st = .processing ∨ st = .authorized) : Advances st .succeeded
  | failed (st : PaymentStatus) (h : st = .processing ∨ st = .authorized) : Advances st .failed
  | refunded (st : PaymentStatus) (h : st = .succeeded ∨ st = .refundPending) : Advances st .refunded

/-- The status leads to the other one in some number of steps. -/
def LeadsTo (st st' : PaymentStatus) : Prop := Relation.ReflTransGen Advances st st'

/-- A later row of the same payment. A change that keeps the version only parks the payment. -/
structure Evolves (p p' : Payment) : Prop where
  terms : p' = { p with
    status := p'.status
    pspReference := p'.pspReference
    refundedAmount := p'.refundedAmount
    version := p'.version }
  status : LeadsTo p.status p'.status
  reference : ¬ Payment.inFlight p → p'.pspReference = p.pspReference
  refunds : p.refundedAmount ≤ p'.refundedAmount
  version : p.version ≤ p'.version
  counted : p.version = p'.version → p' = p ∨ Payment.inFlight p ∧ ∃ r, p' = awaiting r p

variable {p p' p'' : Payment}

/-- How far a status is along the way of a payment. -/
def rank : PaymentStatus → ℕ
  | .created => 0
  | .processing => 0
  | .authorized => 1
  | .refunded => 3
  | _ => 2

theorem rank_lt {st st' : PaymentStatus} (h : Advances st st') : rank st < rank st' := by
  cases h with
  | parked => decide
  | settled st h | failed st h | refunded st h =>
    rcases h with rfl | rfl
    · decide
    · decide

theorem rank_le {st st' : PaymentStatus} (h : LeadsTo st st') : st = st' ∨ rank st < rank st' := by
  induction h with
  | refl => exact Or.inl rfl
  | tail _ hstep ih =>
    have hlt := rank_lt hstep
    rcases ih with rfl | ih
    · exact Or.inr hlt
    · exact Or.inr (by omega)

/-- A status that has been left does not come back. -/
theorem leadsTo_antisymm {st st' : PaymentStatus} (h : LeadsTo st st') (h' : LeadsTo st' st) :
    st = st' := by
  rcases rank_le h with heq | hlt
  · exact heq
  · rcases rank_le h' with heq | hlt'
    · exact heq.symm
    · omega

theorem leadsTo_inFlight {st st' : PaymentStatus} (h : LeadsTo st st')
    (hst' : st' = .processing ∨ st' = .authorized) : st = .processing ∨ st = .authorized := by
  induction h using Relation.ReflTransGen.head_induction_on with
  | refl => exact hst'
  | head hstep _ ih =>
    cases hstep with
    | parked => exact Or.inl rfl
    | settled st h => exact h
    | failed st h => exact h
    | refunded st h =>
      rcases ih with hst | hst
      · contradiction
      · contradiction

theorem Evolves.refl (p : Payment) : Evolves p p :=
  ⟨rfl, .refl, fun _ => rfl, le_refl _, le_refl _, fun _ => Or.inl rfl⟩

/-- What is in flight later has been in flight before. -/
theorem Evolves.inFlight (h : Evolves p p') (hin : Payment.inFlight p') : Payment.inFlight p :=
  decide_eq_true (leadsTo_inFlight h.status (of_decide_eq_true hin))

theorem Evolves.trans (h : Evolves p p') (h' : Evolves p' p'') : Evolves p p'' := by
  refine ⟨?_, h.status.trans h'.status, ?_, le_trans h.refunds h'.refunds,
    le_trans h.version h'.version, ?_⟩
  · rw [h'.terms, h.terms]
  · intro hout
    rw [h'.reference fun hin => hout (h.inFlight hin), h.reference hout]
  · intro hversion
    have hle := h.version
    have hle' := h'.version
    rcases h.counted (by omega) with rfl | ⟨hin, r, rfl⟩
    · exact h'.counted hversion
    · rcases h'.counted (by omega) with rfl | ⟨-, r', rfl⟩
      · exact Or.inr ⟨hin, r, rfl⟩
      · exact Or.inr ⟨hin, r', rfl⟩

theorem Evolves.moved {used ids : List Uuid} {s s' : Database} (h : Moved used s p p' ids s')
    (hguard : p.status = .processing ∨ p.status = .authorized) : Evolves p p' := by
  have hin : Payment.inFlight p := decide_eq_true hguard
  cases h with
  | settled r txn event _ ht he h =>
    refine ⟨rfl, .single (.settled p.status hguard), fun hout => absurd hin hout, le_refl _, ?_, ?_⟩
    · exact Int.le_add_one (le_refl _)
    · intro hversion
      change p.version = p.version + 1 at hversion
      omega
  | reversed txn event _ ht he h =>
    refine ⟨rfl, .single (.failed p.status hguard), fun hout => absurd hin hout, le_refl _, ?_, ?_⟩
    · exact Int.le_add_one (le_refl _)
    · intro hversion
      change p.version = p.version + 1 at hversion
      omega
  | awaiting r =>
    refine ⟨rfl, ?_, fun hout => absurd hin hout, le_refl _, le_refl _, fun _ => Or.inr ⟨hin, r, rfl⟩⟩
    change LeadsTo p.status .authorized
    rcases hguard with hst | hst
    · rw [hst]
      exact .single .parked
    · rw [hst]
      exact .refl

theorem Evolves.refunded {amount : ℤ} (hamount : 0 < amount)
    (hstatus : p.status = .succeeded ∨ p.status = .refundPending) :
    Evolves p (Service.refunded amount p) := by
  refine ⟨rfl, ?_, fun _ => rfl, ?_, Int.le_add_one (le_refl _), ?_⟩
  · unfold Service.refunded
    dsimp only
    split
    · exact .single (.refunded p.status hstatus)
    · exact .refl
  · change p.refundedAmount ≤ p.refundedAmount + amount
    omega
  · intro hversion
    change p.version = p.version + 1 at hversion
    omega

variable {P : Call → Prop} {s s' : Database} {used used' : List Uuid}

/-- A change writes one payment at most. -/
theorem evolves_of_put {q : Payment} (hpayments : s'.payments = s.payments.put q)
    (hq : ∀ p, s.payments.find? q.id = some p → Evolves p q) {id : Uuid}
    (hp : s.payments.find? id = some p) : ∃ p', s'.payments.find? id = some p' ∧ Evolves p p' := by
  rw [hpayments]
  by_cases hid : id = q.id
  · subst hid
    exact ⟨q, s.payments.find?_put_self q, hq p hp⟩
  · exact ⟨p, (s.payments.find?_put_of_ne q id hid).trans hp, .refl p⟩

theorem evolves_of_change (hc : Change P s used s' used') {id : Uuid}
    (hp : s.payments.find? id = some p) : ∃ p', s'.payments.find? id = some p' ∧ Evolves p p' := by
  cases hc with
  | booked _ ids hs =>
    unfold SameBooks at hs
    rw [hs]
    exact ⟨p, hp, .refl p⟩
  | opened k req createdAt q txn event _ hP hq hfresh hid htxn hevent ht =>
    refine evolves_of_put ht.same.payments ?_ hp
    intro p₀ hp₀
    rw [hfresh] at hp₀
    contradiction
  | moved q q' ids _ hfound hguard hm =>
    refine evolves_of_put hm.same.payments ?_ hp
    intro p₀ hp₀
    rw [hm.terms.1.id, hfound] at hp₀
    cases hp₀
    exact .moved hm hguard
  | refunded q r txn event _ createdAt hamount hr hfound hstatus hcap hfresh hid htxn hevent ht =>
    refine evolves_of_put ht.same.payments ?_ hp
    intro p₀ hp₀
    change s.payments.find? q.id = some p₀ at hp₀
    rw [hfound] at hp₀
    cases hp₀
    exact .refunded hamount hstatus
  | posted type referenceId postings txn _ hP htype href htxn hposted =>
    have helse := hposted.elsewhere
    unfold SameElsewhere at helse
    rw [helse]
    exact ⟨p, hp, .refl p⟩
  | published ev t hfound hnew => exact ⟨p, hp, .refl p⟩

theorem evolves_of_changes (h : Changes P s used s' used') {id : Uuid}
    (hp : s.payments.find? id = some p) : ∃ p', s'.payments.find? id = some p' ∧ Evolves p p' := by
  induction h with
  | refl => exact ⟨p, hp, .refl p⟩
  | tail s₁ used₁ s₂ used₂ _ hc ih =>
    obtain ⟨p₁, hp₁, hevolves⟩ := ih
    obtain ⟨p₂, hp₂, hevolves'⟩ := evolves_of_change hc hp₁
    exact ⟨p₂, hp₂, hevolves.trans hevolves'⟩

end Evolution

section Readings

variable {ext : Externals} {db : Database} {spent : List Uuid} {σ σ' σ'' : State}

/-- What a later reading of a payment may show. -/
structure Progresses (r r' : PaymentResponse) : Prop where
  terms : r' = { r with
    status := r'.status
    pspReference := r'.pspReference
    refundedAmount := r'.refundedAmount }
  status : LeadsTo r.status r'.status
  reference : r.status ≠ .processing → r.status ≠ .authorized → r'.pspReference = r.pspReference
  refunds : r.refundedAmount ≤ r'.refundedAmount

theorem Evolves.progresses {p p' : Payment} (h : Evolves p p') :
    Progresses (toResponse p) (toResponse p') := by
  refine ⟨?_, h.status, ?_, h.refunds⟩
  · rw [h.terms]
    rfl
  · intro hprocessing hauthorized
    refine h.reference fun hin => ?_
    rcases of_decide_eq_true hin with hst | hst
    · exact hprocessing hst
    · exact hauthorized hst

/-- Between any two states of a run every payment evolves. So two readings of it through the API
are in order: the second one finds it again, with the same terms, a status that is the same or
further on, and no smaller refunded amount. A status that has been left does not come back. -/
theorem payments_evolve (h : System.Run (program ext) anyStep (System.initial db spent) σ)
    (h' : System.Run (program ext) anyStep σ σ') (h'' : System.Run (program ext) anyStep σ' σ'')
    (id : Uuid) :
    (∀ p, σ.db.payments.find? id = some p → ∃ p', σ'.db.payments.find? id = some p' ∧ Evolves p p') ∧
    (∀ r, Returns (getPayment id) σ.db r →
      ∃ r', Returns (getPayment id) σ'.db r' ∧ Progresses r r') ∧
    ∀ r r' r'', Returns (getPayment id) σ.db r → Returns (getPayment id) σ'.db r' →
      Returns (getPayment id) σ''.db r'' → r.status = r''.status → r'.status = r.status := by
  have hevolves : ∀ {σ₁ σ₂ : State}, System.Run (program ext) anyStep (System.initial db spent) σ₁ →
      System.Run (program ext) anyStep σ₁ σ₂ → ∀ p, σ₁.db.payments.find? id = some p →
        ∃ p', σ₂.db.payments.find? id = some p' ∧ Evolves p p' := by
    intro σ₁ σ₂ h₁ h₂ p hp
    have hstarts := starts_of_run h₂
    exact evolves_of_changes (changes_of_run (running_of_run h₁) hstarts).2 hp
  refine ⟨hevolves h h', fun r hr => ?_, ?_⟩
  · obtain ⟨p, hp, rfl⟩ := returns_payment_iff.mp hr
    obtain ⟨p', hp', he⟩ := hevolves h h' p hp
    exact ⟨toResponse p', returns_payment_iff.mpr ⟨p', hp', rfl⟩, he.progresses⟩
  · intro r r' r'' hr hr' hr'' hstatus
    obtain ⟨p, hp, rfl⟩ := returns_payment_iff.mp hr
    obtain ⟨p', hp', rfl⟩ := returns_payment_iff.mp hr'
    obtain ⟨p'', hp'', rfl⟩ := returns_payment_iff.mp hr''
    obtain ⟨q', hq', he⟩ := hevolves h h' p hp
    obtain rfl := Option.some.inj (hp'.symm.trans hq')
    obtain ⟨q'', hq'', he'⟩ := hevolves (h.trans h') h'' p' hp'
    obtain rfl := Option.some.inj (hp''.symm.trans hq'')
    apply leadsTo_antisymm _ he.status
    change p.status = p''.status at hstatus
    rw [hstatus]
    exact he'.status

/-- A payment that is held, then captured, then refunded in full. -/
theorem payments_evolve_sample :
    ∃ σ σ' σ'' : State, System.Run (program sampleExternals) anyStep
        (System.initial sampleDatabase []) σ ∧ System.Run (program sampleExternals) anyStep σ σ' ∧
      System.Run (program sampleExternals) anyStep σ' σ'' ∧
      [σ, σ', σ''].map (fun σ => σ.db.payments.rows.map Payment.status) =
        [[.processing], [.succeeded], [.refunded]] ∧
      (∀ p, σ.db.payments.find? 10 = some p →
        ∃ p', σ'.db.payments.find? 10 = some p' ∧ Evolves p p') ∧
      (∀ r, Returns (getPayment 10) σ.db r →
        ∃ r', Returns (getPayment 10) σ'.db r' ∧ Progresses r r') ∧
      ∀ r r' r'', Returns (getPayment 10) σ.db r → Returns (getPayment 10) σ'.db r' →
        Returns (getPayment 10) σ''.db r'' → r.status = r''.status → r'.status = r.status := by
  have hexec : ((System.exec (program sampleExternals) (.start 0 (.create "key" (sampleRequest 3)) ::
      sampleSteps 0 10 40 (.ok ⟨.captured, some "psp", none⟩) 0) (System.initial sampleDatabase [])).bind
      fun σ => (System.exec (program sampleExternals)
        (sampleSteps 0 50 28 (.ok ⟨.captured, some "psp", none⟩) 0) σ).bind
      fun σ' => (System.exec (program sampleExternals)
        (.start 1 (.refund "back" 10 ⟨50, by decide⟩) :: sampleSteps 1 100 37 (.error "unused") 5) σ').map
      fun σ'' => [σ, σ', σ''].map fun σ => σ.db.payments.rows.map Payment.status) =
      some [[.processing], [.succeeded], [.refunded]] := by decide +kernel
  obtain ⟨σ, hσ, hrest⟩ := Option.bind_eq_some_iff.mp hexec
  obtain ⟨σ', hσ', hrest⟩ := Option.bind_eq_some_iff.mp hrest
  obtain ⟨σ'', hσ'', hstatuses⟩ := Option.map_eq_some_iff.mp hrest
  have hrun : System.Run (program sampleExternals) anyStep (System.initial sampleDatabase []) σ :=
    System.run_of_exec hσ fun _ _ _ => trivial
  have hrun' : System.Run (program sampleExternals) anyStep σ σ' :=
    System.run_of_exec hσ' fun _ _ _ => trivial
  have hrun'' : System.Run (program sampleExternals) anyStep σ' σ'' :=
    System.run_of_exec hσ'' fun _ _ _ => trivial
  exact ⟨σ, σ', σ'', hrun, hrun', hrun'', hstatuses, payments_evolve hrun hrun' hrun'' 10⟩

end Readings

end ApexPayments.Service
