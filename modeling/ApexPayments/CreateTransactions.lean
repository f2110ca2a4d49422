import ApexPayments.Transactions

/-!
The two transactions of `PaymentService.create`: the claim with its hold, and the
resolution after the provider has answered. Each is described for whatever other
transactions commit in the meantime.
-/
namespace ApexPayments.Service

open Domain Store Ledger Payments Webhooks RowLocking

variable {F : Frame backend}

section Resolve

/-- What the answer of the provider makes of a payment. -/
def decided (result : AuthorizationResult) : Payment → Payment :=
  match result.outcome with
  | .captured => settled (result.pspReference.getD "")
  | .declined => reversed
  | .pending => awaiting result.pspReference

theorem id_decided (result : AuthorizationResult) (p : Payment) : (decided result p).id = p.id := by
  unfold decided
  cases result.outcome <;> rfl

/-- The commit of the second transaction of `create`. -/
structure Resolves (F : Frame backend) (k : String) (req : CreatePaymentRequest) (id : Uuid)
    (result : AuthorizationResult) (p : Payment) (next : Program Reply) (L : Session backend) :
    Prop where
  found : F.hi.payments.find? id = some p
  next : next = pure (.payment 201 (toResponse (decided result p)))
  opened : insertedPayments L.flushed = []
  effect : ∃ ids s₁, Moved F.spent F.hi p (decided result p) ids s₁ ∧
    usedBy F L = ids ++ F.spent ∧
    ((∃ s, F.Sees s ∧ s.idempotencyKeys.find? (req.merchantId, k) = none ∧
        view F.hi L.flushed = s₁) ∨
      ∃ r, F.hi.idempotencyKeys.find? (req.merchantId, k) = some r ∧
        view F.hi L.flushed = s₁.put (.idempotencyRecord
          (completed id 201 (.payment (toResponse (decided result p))) r)))

/-- The part of `resolve` before the key is completed. -/
structure Decides (F : Frame backend) (id : Uuid) (result : AuthorizationResult) (p : Payment)
    (ids : List Uuid) (L : Session backend) : Prop where
  found : F.hi.payments.find? id = some p
  moved : Moved F.spent F.hi p (decided result p) ids (F.working L)
  used : usedBy F L = ids ++ F.spent
  keeps : Keeps F (.fresh backend) L
  records : ∀ s, (view s L.flushed).idempotencyKeys = s.idempotencyKeys

theorem applyResult_ensures (id : Uuid) (result : AuthorizationResult) :
    (applyResult id result).Ensures F (.fresh backend) (Stop.Ends
      (fun e _ => ResolveFails F F.hi id e)
      (fun q L => ∃ p ids, q = decided result p ∧ Decides F id result p ids L)) := by
  unfold applyResult
  cases hout : result.outcome with
  | captured =>
    refine (settle_ensures id _ (.fresh backend) rfl).ends
      (fun e _ he => resolveFails_of_settle he) ?_
    rintro q L ⟨p, txn, event, rfl, h⟩
    obtain ⟨hmoved, hused⟩ := moved_of_settle h
    have hd : decided result p = settled (result.pspReference.getD "") p := by
      simp [decided, hout]
    exact ⟨p, _, hd.symm, h.found, hd ▸ hmoved, hused, keeps_resolve h, h.transfer.records⟩
  | declined =>
    refine (reverse_ensures id (.fresh backend) rfl).ends
      (fun e _ he => resolveFails_of_reverse he) ?_
    rintro q L ⟨p, txn, event, rfl, h⟩
    obtain ⟨hmoved, hused⟩ := moved_of_reverse h
    have hd : decided result p = reversed p := by simp [decided, hout]
    exact ⟨p, _, hd.symm, h.found, hd ▸ hmoved, hused, keeps_resolve h, h.transfer.records⟩
  | pending =>
    refine (awaitWebhook_ensures id result.pspReference (.fresh backend) rfl).ends ?_ ?_
    · rintro e _ ⟨rfl, _⟩
      exact ⟨fun _ _ _ => by simp, fun _ _ _ he => by simp at he⟩
    · rintro q L ⟨p, rfl, hfound, rfl⟩
      have hd : decided result p = awaiting result.pspReference p := by simp [decided, hout]
      refine ⟨p, [], hd.symm, hfound, ?_, rfl, ?_, fun s => rfl⟩
      · rw [hd]
        exact .awaiting result.pspReference
      · exact (keeps_hold _ _).trans (keeps_stage rfl trivial)

theorem resolve_ensures (k : String) (req : CreatePaymentRequest) (id : Uuid)
    (result : AuthorizationResult) :
    (resolve k req id result).Ensures F (.fresh backend) (Stop.Commits
      (ResolveFails F F.hi id)
      (fun next L => ∃ p, Resolves F k req id result p next L)) := by
  unfold resolve
  refine Prog.Ensures.bind (applyResult_ensures id result) (fun e _ he => he) ?_
  rintro q L₁ ⟨p, ids, rfl, h⟩
  have hfails : ∀ e, Refused e → ResolveFails F F.hi id e := fun e he =>
    ⟨untriggered_of_refused he, unfunded_of_refused he⟩
  have hid : (decided result p).id = id := (id_decided result p).trans (Table.key_of_find? h.found)
  refine Prog.Ensures.bind (complete_ensures _ _ _ _ _ L₁) ?_ ?_
  · rintro e _ (he | ⟨rfl, _⟩)
    · exact hfails e he
    · exact ⟨fun _ _ _ => by simp, fun _ _ _ he => by simp at he⟩
  · rintro u L₂ hc
    have hcommit : ∀ L : Session backend, Keeps F L₁ L →
        (∃ s₁, Moved F.spent F.hi p (decided result p) ids s₁ ∧ usedBy F L = ids ++ F.spent ∧
          ((∃ s, F.Sees s ∧ s.idempotencyKeys.find? (req.merchantId, k) = none ∧
            F.working L = s₁) ∨
          ∃ r, F.hi.idempotencyKeys.find? (req.merchantId, k) = some r ∧
            F.working L = s₁.put (.idempotencyRecord
              (completed id 201 (.payment (toResponse (decided result p))) r)))) →
        (Prog.commitAll >>= fun _ => pure (.payment 201 (toResponse (decided result p)))).Ensures F
          L (Stop.Commits (ResolveFails F F.hi id)
            (fun next L => ∃ p, Resolves F k req id result p next L)) := by
      rintro L hkeeps ⟨s₁, hmoved, hused, heffect⟩
      have hall := h.keeps.trans hkeeps
      refine ensures_commit hall ⟨p, h.found, rfl, ?_, ids, s₁, hmoved, hused, ?_⟩ hfails ?_
      · have ho := ((hall.trans (keeps_flushAll L)).opened)
        simpa [opened, insertedPayments, Session.flushAll, Session.fresh] using ho
      · rw [← Frame.working_of_pending L.flushAll rfl, Frame.working_flushAll]
        exact heffect
      · rintro e he ⟨i, n, rfl⟩
        exact ⟨he, fun _ _ _ h => by simp at h⟩
    rcases hc with ⟨s, hs, hn, rfl⟩ | ⟨s, r, hr, _, rfl⟩
    · rw [h.records] at hn
      exact hcommit _ (keeps_see _ _) ⟨_, h.moved, h.used, Or.inl ⟨s, hs, hn, rfl⟩⟩
    · rw [h.records] at hr
      refine hcommit _ ?_ ⟨_, h.moved, h.used, Or.inr ⟨r, hr, ?_⟩⟩
      · exact keeps_complete s _
      · rw [Frame.working_flushAll, Frame.working_stage, hid]
        rfl

end Resolve

section Create

/-- The commit of `create` that returns a stored response. -/
structure Replays (F : Frame backend) (ext : Externals) (k : String) (req : CreatePaymentRequest)
    (r : IdempotencyRecord) (resp : PaymentResponse) (next : Program Reply)
    (L : Session backend) : Prop where
  seen : ∃ s, F.Sees s ∧ s.idempotencyKeys.find? (req.merchantId, k) = some r
  hash : r.requestHash = ext.hash (.create req)
  status : r.status = .completed
  body : r.responseBody = some (.payment resp)
  next : next = pure (.payment (codeOr200 r.responseCode) resp)
  flushed : L.flushed = []

/-- The commit of the first transaction of `create`: a claim and a hold. -/
structure Opens (F : Frame backend) (ext : Externals) (k : String) (req : CreatePaymentRequest)
    (p : Payment) (txn : LedgerTransaction) (event : Outbox) (next : Program Reply)
    (L : Session backend) : Prop where
  payment : ∃ createdAt, p = held (newPayment p.id req createdAt)
  next : next = afterHold k req p
  window : ∃ s, F.Sees s ∧ s.idempotencyKeys.find? (req.merchantId, k) = none
  record_fresh : F.hi.idempotencyKeys.find? (req.merchantId, k) = none
  payment_fresh : F.hi.payments.find? p.id = none
  id_unspent : p.id ∉ F.spent
  txn_unused : txn.id ∉ p.id :: F.spent
  event_unused : event.id ∉ txn.id :: p.id :: F.spent
  used : usedBy F L = event.id :: txn.id :: p.id :: F.spent
  opened : insertedPayments L.flushed = [p]
  effect : Transferred (holdOf p) txn event
    ((F.hi.put (.idempotencyRecord (inProgress req.merchantId k (ext.hash (.create req))))).put
      (.payment p)) (view F.hi L.flushed)

/-- Why the first transaction of `create` can raise. -/
def CreateFails (F : Frame backend) (ext : Externals) (k : String) (req : CreatePaymentRequest)
    (e : Exn) : Prop :=
  Untriggered F e ∧
    ((∃ s, F.Sees s ∧ s.idempotencyKeys.find? (req.merchantId, k) = none) ∨
      ∃ s r, F.Sees s ∧ s.idempotencyKeys.find? (req.merchantId, k) = some r ∧
        (r.requestHash ≠ ext.hash (.create req) ∧ e = .idempotencyMismatch k ∨
          r.requestHash = ext.hash (.create req) ∧ r.status = .inProgress ∧
            e = .idempotencyConflict k ∨
          r.requestHash = ext.hash (.create req) ∧ r.status = .completed ∧
            ∀ resp, r.responseBody ≠ some (.payment resp)))

theorem createFails_of_claim {ext : Externals} {k : String} {req : CreatePaymentRequest}
    {L : Session backend} {e : Exn} (hL : L.flushed = [])
    (h : ClaimRaises F req.merchantId k (ext.hash (.create req)) L e) :
    CreateFails F ext k req e := by
  unfold ClaimRaises ClaimFinds at h
  rw [hL] at h
  rcases h with ⟨s, hs, hn, he⟩ | ⟨s, r, hr, ⟨hne, rfl⟩ | ⟨heq, hst, rfl⟩⟩
  · exact ⟨untriggered_of_refused he, Or.inl ⟨s, hs, hn⟩⟩
  · exact ⟨fun _ _ _ => by simp, Or.inr ⟨s, r, hr.1, hr.2, Or.inl ⟨hne, rfl⟩⟩⟩
  · exact ⟨fun _ _ _ => by simp, Or.inr ⟨s, r, hr.1, hr.2, Or.inr (Or.inl ⟨heq, hst, rfl⟩)⟩⟩

theorem paymentResponse_cases (body : Option ResponseBody) :
    (∃ resp, body = some (.payment resp) ∧ paymentResponse body = .ok resp) ∨
      (∀ resp, body ≠ some (.payment resp)) ∧ paymentResponse body = .error .validationError := by
  rcases body with _ | resp | resp
  · exact Or.inr ⟨by simp, rfl⟩
  · exact Or.inl ⟨resp, rfl, rfl⟩
  · exact Or.inr ⟨by simp, rfl⟩

theorem create_ensures (ext : Externals) (k : String) (req : CreatePaymentRequest) :
    (create ext k req).Ensures F (.fresh backend) (Stop.Commits (CreateFails F ext k req)
      (fun next L => (∃ r resp, Replays F ext k req r resp next L) ∨
        ∃ p txn event, Opens F ext k req p txn event next L)) := by
  unfold create
  refine ensures_uuid4 ?_
  intro id hid _
  refine Prog.Ensures.bind (claimOrReplay_ensures ext req.merchantId k (.create req)
    ((Session.fresh backend).draw id) rfl) (fun e _ he => createFails_of_claim rfl he) ?_
  rintro (_ | ⟨code, body⟩) L₁ h
  · refine ensures_now ?_
    intro createdAt
    have hfails : ∀ e, Untriggered F e → CreateFails F ext k req e := by
      intro e he
      obtain ⟨s, hs, hn⟩ := h.window
      exact ⟨he, Or.inl ⟨s, hs, hn⟩⟩
    refine Prog.Ensures.bind (hold_ensures (newPayment id req createdAt) L₁) ?_ ?_
    · rintro e _ (he | he)
      · exact hfails e (untriggered_of_refused he)
      · exact hfails e (untriggered_of_post he)
    · rintro p L₂ ⟨rfl, txn, event, hh⟩
      set p := held (newPayment id req createdAt) with hp
      set r := inProgress req.merchantId k (ext.hash (.create req)) with hr
      have hclaim : Keeps F (.fresh backend) L₁ := (keeps_draw _ id).trans (keeps_claim h rfl)
      have hpay : (L₁.stage (.insert (.payment p))).flushAll.drawn = [id] := h.drawn
      have hopened : opened L₂ = [p] := by
        rw [hh.transfer.opened, opened_flushAll, opened_stage, hclaim.opened]
        rfl
      have hsealed : Sealed F (.fresh backend) → Sealed F L₂ := fun hs =>
        hh.transfer.sealed
          (Sealed.stage (w := .insert (.payment p)) (hclaim.sealed hs) trivial).flushAll
      obtain ⟨ht, he, hu⟩ := used_of_transfer hh.transfer
      unfold usedBy at ht he hu
      rw [hpay] at ht he hu
      refine Prog.Ensures.commitAll ?_ fun e _ he => hfails e (untriggered_of_refused
        (refused_of_flushFails he))
      intro _
      constructor
      · intro e he
        refine hfails e ?_
        intro hknown
        have hnone := (hsealed (sealed_fresh hknown)).deferred
        rw [hnone] at he
        contradiction
      · intro _
        have hfresh : (F.working L₁).payments.find? p.id = none := hh.fresh
        refine Or.inr ⟨p, txn, event, ⟨createdAt, rfl⟩, rfl, h.window, h.fresh, ?_, hid, ht, he,
          hu, ?_, ?_⟩
        · rw [h.working] at hfresh
          exact hfresh
        · have ho := (opened_flushAll L₂).trans hopened
          simpa [opened, Session.flushAll] using ho
        · have heff := hh.transfer.transferred (Frame.flushes_of_pending hh.pending)
          rw [Frame.working_flushAll, Frame.working_stage, h.working] at heff
          rw [← Frame.working_of_pending L₂.flushAll rfl, Frame.working_flushAll]
          exact heff
  · obtain ⟨s, r, hfinds, rfl, hhash, hst, rfl, rfl⟩ := h
    refine ensures_ofExcept ?_ ?_
    · intro resp hresp
      rcases paymentResponse_cases r.responseBody with ⟨resp', hbody, hok⟩ | ⟨_, herr⟩
      · rw [hok] at hresp
        cases hresp
        refine ensures_commit_nothing rfl rfl (Or.inl ⟨r, resp, ?_, hhash, hst, hbody, rfl, rfl⟩)
        exact ⟨s, hfinds.1, hfinds.2⟩
      · rw [herr] at hresp
        contradiction
    · intro e he
      rcases paymentResponse_cases r.responseBody with ⟨resp', _, hok⟩ | ⟨hbad, herr⟩
      · rw [hok] at he
        contradiction
      · rw [herr] at he
        cases he
        exact ⟨fun _ _ _ => by simp, Or.inr ⟨s, r, hfinds.1, hfinds.2,
          Or.inr (Or.inr ⟨hhash, hst, hbad⟩)⟩⟩

end Create

end ApexPayments.Service
