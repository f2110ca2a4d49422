import ApexPayments.Transactions

/-!
The transaction of `RefundService.refund`: what it changes when it commits.
-/
namespace ApexPayments.Service

open Domain Store Ledger Payments Webhooks RowLocking

variable {F : Frame backend}

section Refund

def refunded (amount : ℤ) (p : Payment) : Payment :=
  { p with
    refundedAmount := p.refundedAmount + amount
    status := if p.refundedAmount + amount = p.amount then .refunded else p.status
    version := p.version + 1 }

def refundReply (p : Payment) (r : Refund) : RefundResponse :=
  ⟨r.id, p.id, r.amount, r.status, r.createdAt⟩

/-- The commit of a refund that was carried out. -/
structure Refunds (F : Frame backend) (ext : Externals) (k : String) (id : Uuid) (amount : ℤ)
    (p : Payment) (r : Refund) (txn : LedgerTransaction) (event : Outbox) (next : Program Reply)
    (L : Session backend) : Prop where
  record_fresh : F.hi.idempotencyKeys.find? ("merchant_refund", k) = none
  found : F.hi.payments.find? id = some p
  allowed : p.status = .succeeded ∨ p.status = .refundPending
  capped : p.refundedAmount + amount ≤ p.amount
  refund : ∃ createdAt, r = ⟨r.id, p.id, amount, .succeeded, createdAt⟩
  refund_fresh : F.hi.refunds.find? r.id = none
  id_unspent : r.id ∉ F.spent
  txn_unused : txn.id ∉ r.id :: F.spent
  event_unused : event.id ∉ txn.id :: r.id :: F.spent
  used : usedBy F L = event.id :: txn.id :: r.id :: F.spent
  next : next = pure (.refund 201 (refundReply p r))
  effect : ∃ s₁, Transferred (refundOf p r) txn event
      (((F.hi.put (.idempotencyRecord (inProgress "merchant_refund" k
        (ext.hash (.refund id amount))))).put (.refund r)).put (.payment (refunded amount p))) s₁ ∧
    view F.hi L.flushed = s₁.put (.idempotencyRecord (completed r.id 201
      (.refund (refundReply p r))
      (inProgress "merchant_refund" k (ext.hash (.refund id amount)))))

/-- The commit of a refund whose key has a stored response. -/
def RefundReplays (next : Program Reply) (L : Session backend) : Prop :=
  L.flushed = [] ∧ ∃ code resp, next = pure (.refund code resp)

theorem refundResponse_error {body : Option ResponseBody} {e : Exn}
    (h : refundResponse body = .error e) : e = .validationError := by
  rcases body with _ | resp | resp
  · cases h
    rfl
  · cases h
    rfl
  · contradiction

/-- `refund` before the commit of the block around it. -/
structure RefundReturns (F : Frame backend) (ext : Externals) (k : String) (id : Uuid)
    (amount : ℤ) (p : Payment) (r : Refund) (txn : LedgerTransaction) (event : Outbox)
    (L : Session backend) : Prop where
  keeps : Keeps F (.fresh backend) L
  refunds : Refunds F ext k id amount p r txn event (pure (.refund 201 (refundReply p r))) L.flushAll

theorem refundCore_ensures (ext : Externals) (k : String) (id : Uuid) (amount : ℤ) :
    (Payments.refund ext k id amount).Ensures F (.fresh backend) (Stop.Ends
      (fun e _ => Untriggered F e) (fun x L => L.flushed = [] ∧ L.pending = [] ∨
        ∃ p r txn event, x = (201, refundReply p r) ∧
          RefundReturns F ext k id amount p r txn event L)) := by
  have hplain : ∀ e : Exn, (∀ i n, e ≠ .ledgerUnbalanced i n) → Untriggered F e := fun e h _ => h
  set m := "merchant_refund" with hm
  set record := inProgress m k (ext.hash (.refund id amount)) with hrecord
  unfold Payments.refund
  refine Prog.Ensures.bind (claimOrReplay_ensures ext m k (.refund id amount)
    (.fresh backend) rfl) ?_ ?_
  · rintro e _ (⟨_, _, _, he⟩ | ⟨_, _, _, ⟨_, rfl⟩ | ⟨_, _, rfl⟩⟩)
    · exact untriggered_of_refused he
    · exact hplain _ (by simp)
    · exact hplain _ (by simp)
  rintro (_ | ⟨code, body⟩) L₁ h
  · refine ensures_lockPayment (fun _ _ _ => Prog.Ensures.raise (hplain _ (by simp))) ?_
    intro p hfound
    dsimp only
    split
    · exact Prog.Ensures.raise (hplain _ (by simp))
    rename_i hstatus
    split
    · exact Prog.Ensures.raise (hplain _ (by simp))
    rename_i hcap
    refine ensures_uuid4 ?_
    intro rid hrid _
    refine ensures_now ?_
    intro createdAt
    refine ensures_add (ensures_modify ?_)
    set r : Refund := ⟨rid, p.id, amount, .succeeded, createdAt⟩ with hr
    set L₂ := (((L₁.hold (.payment id)).draw rid).stage (.insert (.refund r))).stage
      (.update (.payment (refunded amount p))) with hL₂
    refine ensures_transfer (t := refundOf p r) (fun e _ he => untriggered_of_post he.raises) ?_
    intro txn event L₃ ht
    change TransferReturns F (refundOf p r) L₂ txn event L₃ at ht
    refine Prog.Ensures.bind (complete_ensures m k rid 201 _ L₃) ?_ ?_
    · rintro e _ (he | ⟨rfl, _⟩)
      · exact untriggered_of_refused he
      · exact hplain _ (by simp)
    intro _ L₄ hc
    have hflushed : L₁.flushed = [.insert (.idempotencyRecord record)] := h.flushed
    have hpending : L₂.pending = [.insert (.refund r), .update (.payment (refunded amount p))] := by
      rw [hL₂]
      change (L₁.pending ++ [_]) ++ [_] = _
      rw [h.pending]
      rfl
    have hdrawn : L₂.drawn = [rid] := by
      change rid :: L₁.drawn = _
      rw [h.drawn]
      rfl
    have hrecs : ∀ s, (view s L₃.flushed).idempotencyKeys.find? (m, k) = some record := by
      intro s
      rw [ht.records s, hpending]
      change (view s (L₁.flushed ++ _)).idempotencyKeys.find? (m, k) = _
      rw [hflushed]
      exact s.idempotencyKeys.find?_put_self record
    have hwork : F.working L₂ = (((F.hi.put (.idempotencyRecord record)).put (.refund r)).put
        (.payment (refunded amount p))) := by
      rw [hL₂, Frame.working_stage, Frame.working_stage]
      have hsame : F.working ((L₁.hold (.payment id)).draw rid) = F.working L₁ := rfl
      rw [hsame, h.working]
      rfl
    have hkeeps : Keeps F (.fresh backend) L₃ := by
      have h₁ : Keeps F L₁ ((L₁.hold (.payment id)).draw rid) :=
        (keeps_hold L₁ _).trans (keeps_draw _ rid)
      have h₂ : Keeps F ((L₁.hold (.payment id)).draw rid) L₂ :=
        Keeps.trans (keeps_stage (w := .insert (.refund r)) rfl trivial)
          (keeps_stage (w := .update (.payment (refunded amount p))) rfl trivial)
      exact (((keeps_claim h rfl).trans h₁).trans h₂).trans (keeps_transfer ht)
    rcases hc with ⟨s, _, hn, _⟩ | ⟨s, r', hr', hf, rfl⟩
    · rw [hrecs s] at hn
      contradiction
    · rw [hrecs] at hr'
      obtain rfl := Option.some.inj hr'
      obtain ⟨htxn, hevent, hused⟩ := used_of_transfer ht
      unfold usedBy at htxn hevent hused
      rw [hdrawn] at htxn hevent hused
      refine Prog.Ensures.pure (Or.inr ⟨p, r, txn, event, rfl, hkeeps.trans (keeps_complete s _), ?_⟩)
      refine ⟨h.fresh, ?_, by tauto, by omega, ⟨createdAt, rfl⟩, ?_, hrid, htxn, hevent, hused, rfl,
        F.working L₃, ?_, ?_⟩
      · rw [hflushed] at hfound
        exact hfound
      · have hearlier := ht.earlier
        rw [hpending] at hearlier
        have hget := Frame.fresh_of_flushes hearlier
        change (view F.hi L₁.flushed).get (.refund rid) = none at hget
        rw [hflushed] at hget
        exact Option.map_eq_none_iff.mp hget
      · rw [← hwork]
        exact ht.transferred hf
      · rw [← Frame.working_of_pending _ rfl, Frame.working_flushAll, Frame.working_flushAll,
          Frame.working_stage]
        rfl
  · obtain ⟨s, _, _, rfl, _⟩ := h
    refine ensures_ofExcept ?_ ?_
    · intro resp _
      exact Prog.Ensures.pure (Or.inl ⟨rfl, rfl⟩)
    · intro e he
      obtain rfl := refundResponse_error he
      exact hplain _ (by simp)

theorem refund_ensures (ext : Externals) (k : String) (id : Uuid) (request : RefundRequest) :
    (program ext (.refund k id request)).Ensures F (.fresh backend) (Stop.Commits (Untriggered F)
      (fun next L => RefundReplays next L ∨
        ∃ p r txn event, Refunds F ext k id request.amount p r txn event next L)) := by
  refine Prog.Ensures.bind (refundCore_ensures ext k id request.amount) (fun e _ he => he) ?_
  rintro ⟨code, response⟩ L (⟨hfl, hp⟩ | ⟨p, r, txn, event, hx, h⟩)
  · exact ensures_commit_nothing hfl hp (Or.inl ⟨hfl, code, response, rfl⟩)
  · cases hx
    exact ensures_commit h.keeps (Or.inr ⟨p, r, txn, event, h.refunds⟩)
      (fun e he => untriggered_of_refused he) fun e he _ => he

end Refund

end ApexPayments.Service
