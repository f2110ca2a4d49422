import ApexPayments.Currencies

/-!
Calls of `create` with one merchant and one key. The claim of the key decides which
of them opens a payment and asks the provider; what the key stores when it is
completed is what all of them return, then and later.
-/
namespace ApexPayments.Service

open Domain Store Ledger Payments Webhooks RowLocking

section Traces

/-- The payments whose rows a call has committed. -/
def openedIn (trace : List (RowLocking.Event backend)) : List Payment :=
  trace.flatMap fun
    | .committed ws => insertedPayments ws
    | .answered _ _ => []

/-- The payments that a call has asked the provider to authorize. -/
def authorizedIn (trace : List (RowLocking.Event backend)) : List Payment :=
  trace.filterMap fun
    | .answered (.authorize p) _ => some p
    | _ => none

variable {ext : Externals} {h : Head}

/-- A call of `create` opens at most one payment and authorizes no other. -/
theorem trace_of_stage {k : String} {req : CreatePaymentRequest} (hc : h.call = .create k req)
    (hs : Stage ext h.call h.base h.trace) :
    openedIn h.trace = (openedBy h).toList ∧
      (authorizedIn h.trace = [] ∨ authorizedIn h.trace = (openedBy h).toList) := by
  obtain ⟨call, since, base, trace⟩ := h
  dsimp only at hc hs ⊢
  cases hs with
  | start c =>
    rw [hc]
    exact ⟨rfl, Or.inl rfl⟩
  | failed c e =>
    rw [hc]
    exact ⟨rfl, Or.inl rfl⟩
  | returned c reply ws hcreate =>
    rw [hc] at hcreate
    exact absurd trivial hcreate
  | replayed k req code resp => exact ⟨rfl, Or.inl rfl⟩
  | held k req p ws hws =>
    simp [openedIn, openedBy, authorizedIn, hws]
  | answered k req p ws result hws =>
    simp [openedIn, openedBy, authorizedIn, hws]
  | stranded k req p ws e hws =>
    simp [openedIn, openedBy, authorizedIn, hws]
  | strandedLate k req p ws ans e hws =>
    simp [openedIn, openedBy, authorizedIn, hws]
  | resolved k req p ws ws₂ ans resp hws hws₂ =>
    simp [openedIn, openedBy, authorizedIn, hws, hws₂]

end Traces

section Stored

variable {ext : Externals} {s s' : Database} {m k : String}

/-- The key stores the reply of a finished request. -/
def Stored (ext : Externals) (s : Database) (m k : String) (req : CreatePaymentRequest)
    (reply : Reply) : Prop :=
  ∃ r resp, s.idempotencyKeys.find? (m, k) = some r ∧ r.status = .completed ∧
    r.requestHash = ext.hash (.create req) ∧ r.responseBody = some (.payment resp) ∧
    reply = .payment (codeOr200 r.responseCode) resp

theorem completed_of_older {r : IdempotencyRecord} (ho : Older s s')
    (hr : s.idempotencyKeys.find? (m, k) = some r) (hst : r.status = .completed) :
    s'.idempotencyKeys.find? (m, k) = some r := by
  obtain ⟨r', hr', _, heq⟩ := ho.records _ r hr
  rw [hr', heq hst]

theorem Stored.mono {req : CreatePaymentRequest} {reply : Reply} (h : Stored ext s m k req reply)
    (ho : Older s s') : Stored ext s' m k req reply := by
  obtain ⟨r, resp, hr, hst, hrest⟩ := h
  exact ⟨r, resp, completed_of_older ho hr hst, hst, hrest⟩

theorem Stored.unique {req req' : CreatePaymentRequest} {reply reply' : Reply}
    (h : Stored ext s m k req reply) (h' : Stored ext s m k req' reply') : reply = reply' := by
  obtain ⟨r, resp, hr, _, _, hb, rfl⟩ := h
  obtain ⟨r', resp', hr', _, _, hb', rfl⟩ := h'
  obtain rfl := Option.some.inj (hr.symm.trans hr')
  obtain rfl : resp = resp' := by
    rw [hb] at hb'
    cases hb'
    rfl
  rfl

variable {F : Frame backend}

/-- No call has returned before its first commit. -/
theorem program_ne_pure (F : Frame backend) (c : Call) (v : Reply) : program ext c ≠ .pure v := by
  intro hb
  refine @start_ensures F ext ⟨c, F.lo, program ext c, []⟩ rfl
    (.value v (.fresh backend)) ?_
  change (program ext c).Runs F _ _
  rw [hb]
  rfl

theorem resolve_ne_pure (F : Frame backend) (k : String) (req : CreatePaymentRequest) (id : Uuid)
    (result : AuthorizationResult) (v : Reply) : resolve k req id result ≠ .pure v := by
  intro hb
  refine resolve_ensures (F := F) k req id result (.value v (.fresh backend)) ?_
  rw [hb]
  rfl

/-- Every call of `create` that has returned finds its reply under its key. -/
theorem stored_of_reach {allowed : Moment → Atomic.Act backend Call → Prop} {a₀ a : Moment}
    (howned : Owned ext a₀)
    (h₀ : ∀ pid h k req reply, a₀.heads pid = some h → h.call = .create k req →
      h.base = .pure reply → Stored ext a₀.db req.merchantId k req reply)
    (hreach : Atomic.Reach (program ext) allowed Older skips a₀ a) :
    ∀ pid h k req reply, a.heads pid = some h → h.call = .create k req → h.base = .pure reply →
      Stored ext a.db req.merchantId k req reply := by
  induction hreach with
  | refl => exact h₀
  | @tail a₁ a₂ hreach hstep ih =>
    have howned₁ := owned_of_reach howned hreach
    obtain ⟨act, hs, _⟩ := hstep
    have holder := (owned_step howned₁ hs).2
    intro pid' h' k req reply hp' hc hb
    have hold : ∀ h', a₁.heads pid' = some h' → h'.call = .create k req → h'.base = .pure reply →
        Stored ext a₂.db req.merchantId k req reply := fun h' hp' hc hb =>
      (ih pid' h' k req reply hp' hc hb).mono holder
    cases hs with
    | start pid c hp =>
      rcases Atomic.heads_put hp' with ⟨_, rfl⟩ | ⟨_, hp'⟩
      · exact absurd hb (program_ne_pure (Frame.alone a₁.db []) c reply)
      · exact hold h' hp' hc hb
    | call pid h q next ans L hp ho hr =>
      rcases Atomic.heads_put hp' with ⟨_, rfl⟩ | ⟨_, hp'⟩
      · obtain ⟨k, req, p, ws, _, hbase, _⟩ := calling_of_stage (howned₁.stage pid h hp) hr
        rw [hbase] at hr
        cases hr
        rcases ans with message | result
        · contradiction
        · exact absurd hb (resolve_ne_pure (Frame.alone a₁.db []) k req p.id result reply)
      · exact hold h' hp' hc hb
    | commit pid h next L hp ho hr =>
      rcases Atomic.heads_put (a := a₁) hp' with ⟨_, rfl⟩ | ⟨_, hp'⟩
      · have hcom := committed_of_stage (howned₁.stage pid h hp) hr
        change h.call = .create k req at hc
        change next = .pure reply at hb
        cases hcom with
        | replayed k₁ req₁ r resp hc₁ ht hrep =>
          rw [hc₁] at hc
          cases hc
          obtain ⟨s, hs, hfind⟩ := hrep.seen
          have hreply := hrep.next.symm.trans hb
          cases hreply
          refine Stored.mono ?_ holder
          exact ⟨r, resp, completed_of_older hs.2 hfind hrep.status, hrep.status, hrep.hash,
            hrep.body, rfl⟩
        | opened k₁ req₁ p txn event hc₁ ht hopen =>
          have hnext := hopen.next.symm.trans hb
          contradiction
        | resolved k₁ req₁ p p' ws result hc₁ hws ht hres =>
          rw [hc₁] at hc
          cases hc
          have howns := owned_answered hc₁ hws ht
          have hreply := hres.next.symm.trans hb
          cases hreply
          obtain ⟨rfl, ids, s₁, _, _, hview⟩ := resolves_owned howned₁ hp hc₁ howns hres
          have hfind : (view a₁.db L.flushed).idempotencyKeys.find? (req.merchantId, k) =
              some (completed p'.id 201 (.payment (toResponse (decided result p')))
                (inProgress req.merchantId k (ext.hash (.create req)))) := by
            rw [hview]
            exact Table.find?_put_self _ _
          exact ⟨_, _, hfind, rfl, rfl, rfl, rfl⟩
        | refundReplayed k₁ id req₁ hc₁ => rw [hc₁] at hc; contradiction
        | refunded k₁ id req₁ p r txn event hc₁ => rw [hc₁] at hc; contradiction
        | webhook rawBody signature event eventId i hc₁ => rw [hc₁] at hc; contradiction
        | expired timeoutMinutes ps hc₁ => rw [hc₁] at hc; contradiction
        | posted type referenceId postings txn hc₁ => rw [hc₁] at hc; contradiction
        | drained batchSize evs t hc₁ => rw [hc₁] at hc; contradiction
      · exact hold h' hp' hc hb
    | fail pid h e hp ho hr hv he =>
      rcases Atomic.heads_put hp' with ⟨_, rfl⟩ | ⟨_, hp'⟩
      · contradiction
      · exact hold h' hp' hc hb

end Stored

section Later

variable {ext : Externals} {k : String} {req req' : CreatePaymentRequest} {reply : Reply}

/-- A call with the stored key that starts after the reply was stored: it commits
nothing, and ends with the reply or with a mismatch, unless it is cancelled. -/
structure Late (ext : Externals) (s₀ : Database) (k : String) (req req' : CreatePaymentRequest)
    (reply : Reply) (h : Head) : Prop where
  since : Older s₀ h.since
  shape : h.trace = [] ∧ (h.base = program ext (.create k req') ∨
      h.base = .raise .cancelled ∨
      ext.hash (.create req') ≠ ext.hash (.create req) ∧
        h.base = .raise (.idempotencyMismatch k)) ∨
    h.trace = [.committed []] ∧ ext.hash (.create req') = ext.hash (.create req) ∧
      h.base = .pure reply

theorem late_of_committed {a : Moment} {h : Head} {s₀ : Database}
    {next : Program Reply} {L : Session backend}
    (hstored : Stored ext s₀ req'.merchantId k req reply) (hc : h.call = .create k req')
    (ho : Older s₀ h.since) (ht : h.trace = []) (hcom : Committed ext (a.frame Older skips h) h next L) :
    L.flushed = [] ∧ ext.hash (.create req') = ext.hash (.create req) ∧ next = .pure reply := by
  obtain ⟨r, resp, hr, hst, hhash, hbody, rfl⟩ := hstored
  cases hcom with
  | replayed k₁ req₁ r₁ resp₁ hc₁ _ hrep =>
    rw [hc] at hc₁
    cases hc₁
    obtain ⟨s, hs, hfind⟩ := hrep.seen
    rw [completed_of_older (ho.trans hs.1) hr hst] at hfind
    cases hfind
    have hb := hrep.body
    rw [hbody] at hb
    cases hb
    exact ⟨hrep.flushed, hrep.hash.symm.trans hhash, hrep.next⟩
  | opened k₁ req₁ p txn event hc₁ _ hopen =>
    rw [hc] at hc₁
    cases hc₁
    obtain ⟨s, hs, hnone⟩ := hopen.window
    rw [completed_of_older (ho.trans hs.1) hr hst] at hnone
    contradiction
  | resolved k₁ req₁ p p' ws result hc₁ hws ht₁ hres =>
    rw [ht] at ht₁
    contradiction
  | refundReplayed k₁ id req₁ hc₁ => rw [hc₁] at hc; contradiction
  | refunded k₁ id req₁ p r txn event hc₁ => rw [hc₁] at hc; contradiction
  | webhook rawBody signature event eventId i hc₁ => rw [hc₁] at hc; contradiction
  | expired timeoutMinutes ps hc₁ => rw [hc₁] at hc; contradiction
  | posted type referenceId postings txn hc₁ => rw [hc₁] at hc; contradiction
  | drained batchSize evs t hc₁ => rw [hc₁] at hc; contradiction

theorem late_of_failing {a : Moment} {h : Head} {s₀ : Database} {e : Exn}
    (hstored : Stored ext s₀ req'.merchantId k req reply) (hc : h.call = .create k req')
    (ho : Older s₀ h.since) (ht : h.trace = []) (hf : Failing ext (a.frame Older skips h) h e) :
    ext.hash (.create req') ≠ ext.hash (.create req) ∧ e = .idempotencyMismatch k := by
  obtain ⟨r, resp, hr, hst, hhash, hbody, rfl⟩ := hstored
  have hseen : ∀ s, (a.frame Older skips h).Sees s →
      s.idempotencyKeys.find? (req'.merchantId, k) = some r := fun s hs =>
    completed_of_older (ho.trans hs.1) hr hst
  cases hf with
  | create k₁ req₁ hc₁ _ hf =>
    rw [hc] at hc₁
    cases hc₁
    rcases hf.2 with ⟨s, hs, hnone⟩ | ⟨s, r₁, hs, hfind, hcase⟩
    · rw [hseen s hs] at hnone
      contradiction
    · rw [hseen s hs] at hfind
      cases hfind
      rcases hcase with ⟨hne, rfl⟩ | ⟨_, hprogress, _⟩ | ⟨_, _, hbad⟩
      · exact ⟨fun heq => hne (hhash.trans heq.symm), rfl⟩
      · rw [hst] at hprogress
        contradiction
      · exact absurd hbody (hbad resp)
  | resolve k₁ req₁ p ws result hc₁ hws ht₁ =>
    rw [ht] at ht₁
    contradiction
  | refund k₁ id req₁ hc₁ => rw [hc₁] at hc; contradiction
  | webhook rawBody signature hc₁ => rw [hc₁] at hc; contradiction
  | expire timeoutMinutes hc₁ => rw [hc₁] at hc; contradiction
  | post type referenceId postings hc₁ => rw [hc₁] at hc; contradiction

theorem late_of_reach {allowed : Moment → Atomic.Act backend Call → Prop} {a₀ a : Moment}
    (howned : Owned ext a₀) (hstored : Stored ext a₀.db req'.merchantId k req reply) {pid : ℕ}
    (hnew : a₀.heads pid = none) (hreach : Atomic.Reach (program ext) allowed Older skips a₀ a) :
    ∀ h, a.heads pid = some h → h.call = .create k req' →
      Late ext a₀.db k req req' reply h := by
  induction hreach with
  | refl =>
    intro h hp
    rw [hnew] at hp
    contradiction
  | @tail a₁ a₂ hreach hstep ih =>
    have howned₁ := owned_of_reach howned hreach
    have holder := older_of_reach howned hreach
    obtain ⟨act, hs, _⟩ := hstep
    intro h' hp' hc
    cases hs with
    | start pid₁ c hp =>
      rcases Atomic.heads_put hp' with ⟨_, rfl⟩ | ⟨_, hp'⟩
      · change c = _ at hc
        exact ⟨holder, Or.inl ⟨rfl, Or.inl (hc ▸ rfl)⟩⟩
      · exact ih h' hp' hc
    | call pid₁ h q next ans L hp ho hr =>
      rcases Atomic.heads_put hp' with ⟨rfl, rfl⟩ | ⟨_, hp'⟩
      · have hlate := ih h hp hc
        obtain ⟨k₁, req₁, p, ws, _, _, ht, hws⟩ := calling_of_stage (howned₁.stage _ h hp) hr
        rcases hlate.shape with ⟨ht', _⟩ | ⟨ht', _⟩
        · rw [ht] at ht'
          contradiction
        · rw [ht] at ht'
          cases ht'
          contradiction
      · exact ih h' hp' hc
    | commit pid₁ h next L hp ho hr =>
      rcases Atomic.heads_put (a := a₁) hp' with ⟨rfl, rfl⟩ | ⟨_, hp'⟩
      · change h.call = _ at hc
        have hlate := ih h hp hc
        have hcom := committed_of_stage (howned₁.stage _ h hp) hr
        rcases hlate.shape with ⟨ht, _⟩ | ⟨_, _, hb⟩
        · obtain ⟨hfl, hhash, hnext⟩ :=
            late_of_committed hstored hc hlate.since ht hcom
          refine ⟨?_, Or.inr ⟨?_, hhash, hnext⟩⟩
          · change Older a₀.db (view a₁.db L.flushed)
            rw [hfl]
            exact holder
          · change h.trace ++ [.committed L.flushed] = _
            rw [ht, hfl]
            rfl
        · rw [hb] at hr
          contradiction
      · exact ih h' hp' hc
    | fail pid₁ h e hp ho hr hv he =>
      rcases Atomic.heads_put hp' with ⟨rfl, rfl⟩ | ⟨_, hp'⟩
      · change h.call = _ at hc
        have hlate := ih h hp hc
        have ht : h.trace = [] := by
          rcases hlate.shape with ⟨ht, _⟩ | ⟨_, _, hb⟩
          · exact ht
          · exact absurd hb (hv reply)
        refine ⟨holder, Or.inl ⟨?_, ?_⟩⟩
        · change h.trace ++ [] = []
          rw [ht]
          rfl
        · rcases hr with rfl | ⟨L, hr⟩
          · exact Or.inr (Or.inl rfl)
          · have hf := failing_of_stage (howned₁.stage _ h hp) he hr
            obtain ⟨hne, rfl⟩ := late_of_failing hstored hc hlate.since ht hf
            exact Or.inr (Or.inr ⟨hne, rfl⟩)
      · exact ih h' hp' hc

/-- The statements of a call that finds its key completed. -/
theorem create_of_stored {r : IdempotencyRecord} {resp : PaymentResponse} (hst : r.status = .completed)
    (hbody : r.responseBody = some (.payment resp)) :
    ∃ next, create ext k req' = .draw next ∧ ∀ id, ∃ next', next id = .read next' ∧
      ∀ s : Database, s.idempotencyKeys.find? (req'.merchantId, k) = some r →
        next' s = if r.requestHash = ext.hash (.create req') then
          .flush (.commit (.pure (.payment (codeOr200 r.responseCode) resp)))
        else .raise (.idempotencyMismatch k) := by
  obtain ⟨m, k', hash, status, resourceId, code, body⟩ := r
  dsimp only at hst hbody ⊢
  subst hst hbody
  refine ⟨_, rfl, fun id => ⟨_, rfl, fun s hs => ?_⟩⟩
  dsimp only
  rw [hs]
  simp only [Prog.bind]
  by_cases hh : hash = ext.hash (.create req')
  · rw [if_neg (not_not.mpr hh), if_pos hh]
    rfl
  · rw [if_pos hh, if_neg hh]
    rfl

/-- Run on its own, such a call comes to its end and changes no table. -/
theorem create_alone {σ : State} {pid : ℕ} {o : Oracle backend}
    (hstored : Stored ext σ.db req'.merchantId k req reply) (hpid : σ.procs pid = none)
    (ho : o.ident ∉ σ.issued) :
    ∃ n σ' p', System.exec (program ext)
        (.start pid (.create k req') :: List.replicate n (.run pid o)) σ = some σ' ∧
      σ'.db = σ.db ∧ σ'.procs pid = some p' ∧
      p'.prog = if ext.hash (.create req) = ext.hash (.create req') then .pure reply
        else .raise (.idempotencyMismatch k) := by
  obtain ⟨r, resp, hr, hst, hhash, hbody, rfl⟩ := hstored
  obtain ⟨next, hcreate, hnext⟩ := @create_of_stored ext k req' r resp hst hbody
  obtain ⟨next', hread, hres⟩ := hnext o.ident
  have hend := hres σ.db hr
  rw [hhash] at hend
  by_cases hh : ext.hash (.create req) = ext.hash (.create req')
  · rw [if_pos hh] at hend
    refine ⟨4, ?_⟩
    rw [if_pos hh]
    simp [System.exec, System.step, hpid, System.stepProcess, System.set, Process.atBoundary,
      program, hcreate, localStep, ho, hread, view, Session.fresh, Session.draw, Session.see, hend,
      List.replicate, System.commit, Database.assertLedgerBalanced, backend, Header.resume]
  · rw [if_neg hh] at hend
    refine ⟨2, ?_⟩
    rw [if_neg hh]
    simp [System.exec, System.step, hpid, System.stepProcess, System.set, Process.atBoundary,
      program, hcreate, localStep, ho, hread, view, Session.fresh, Session.draw, Session.see, hend,
      List.replicate,
      System.abort, Header.resume]

end Later

section Claim

variable {ext : Externals} {db : Database} {spent : List Uuid} {σ : State}

theorem base_of_pure {P : Call → Prop} (hrunning : Running ext P anyKey σ) {pid : ℕ}
    {p : Process backend Call Reply} {v : Reply} (hp : σ.procs pid = some p)
    (hv : p.prog = .pure v) : p.base = .pure v := by
  have hreplay := (hrunning.sound.replayed pid p hp).replay
  have hrun := runs_of_replay (o := .value v p.session) hreplay (by rw [hv]; rfl)
  have hstage := hrunning.owned.stage pid p.toHeader (System.toAtomic_heads hp)
  rcases stops_of_stage hstage hrun with h | ⟨v', hb⟩ | ⟨e, hb⟩ | ⟨k, req, q, ws, _, hb, _, _⟩
  · exact h.elim
  · rw [hb] at hrun
    obtain ⟨rfl, _⟩ := Stop.value.inj hrun
    exact hb
  · rw [hb] at hrun
    contradiction
  · rw [hb] at hrun
    contradiction

/-- The calls of `create` with one merchant and one key, in a state of the system. -/
def IsCreate (σ : State) (m k : String) (pid : ℕ) (p : Process backend Call Reply)
    (req : CreatePaymentRequest) : Prop :=
  σ.procs pid = some p ∧ p.call = .create k req ∧ req.merchantId = m

/-- What a call with the key of a returned call does from the state `σ` on. -/
structure AnsweredFrom (ext : Externals) (σ : State) (m k : String) (req : CreatePaymentRequest)
    (reply : Reply) : Prop where
  duplicate : ∀ σ' pid p req', System.Run (program ext) (Starts fun _ => True) σ σ' →
    σ.procs pid = none → IsCreate σ' m k pid p req' →
    (∀ ws, .committed ws ∈ p.trace → ws = []) ∧
    (∀ v, p.prog = .pure v → req' = req ∧ v = reply) ∧
    ∀ e, p.prog = .raise e → e = .cancelled ∨ req' ≠ req ∧ e = .idempotencyMismatch k
  answered : ∀ σ' pid o req', System.Run (program ext) (Starts fun _ => True) σ σ' →
    σ'.procs pid = none → o.ident ∉ σ'.issued → req'.merchantId = m →
    ∃ n σ'' p, System.exec (program ext)
        (.start pid (.create k req') :: List.replicate n (.run pid o)) σ' = some σ'' ∧
      σ''.db = σ'.db ∧ σ''.procs pid = some p ∧
      p.prog = if req' = req then .pure reply else .raise (.idempotencyMismatch k)

theorem answeredFrom_of_stored (hhash : Function.Injective ext.hash)
    (hrunning : Running ext (fun _ => True) anyKey σ) {m k : String} {req : CreatePaymentRequest}
    {reply : Reply} (hstored : Stored ext σ.db m k req reply) :
    AnsweredFrom ext σ m k req reply := by
  have hinj : ∀ req', ext.hash (.create req') = ext.hash (.create req) ↔ req' = req := by
    intro req'
    refine ⟨fun h => ?_, fun h => by rw [h]⟩
    cases hhash h
    rfl
  constructor
  · rintro σ' pid p req' hrun hnew ⟨hp, hc, rfl⟩
    obtain ⟨hrunning', hreach⟩ := reach_of_service (fun _ _ h => h)
      (fun _ _ _ _ => startsAct_of_stepped) skipsOnly_anyKey hrunning hrun
    have hlate := late_of_reach hrunning.owned hstored (by simp [System.toAtomic, hnew]) hreach
      p.toHeader (System.toAtomic_heads hp) hc
    refine ⟨?_, ?_, ?_⟩
    · intro ws hws
      rcases hlate.shape with ⟨ht, _⟩ | ⟨ht, _⟩
      · rw [ht] at hws
        contradiction
      · rw [ht] at hws
        cases List.mem_singleton.mp hws
        rfl
    · intro v hv
      have hb := base_of_pure hrunning' hp hv
      rcases hlate.shape with ⟨_, hb' | hb' | ⟨_, hb'⟩⟩ | ⟨_, hh, hb'⟩
      · rw [hb'] at hb
        exact absurd hb (program_ne_pure (Frame.alone σ.db []) _ v)
      · rw [hb'] at hb
        contradiction
      · rw [hb'] at hb
        contradiction
      · rw [hb'] at hb
        cases hb
        exact ⟨(hinj req').mp hh, rfl⟩
    · intro e he
      have hb := (hrunning'.sound.replayed pid p hp).raised e he
      rcases hlate.shape with ⟨_, hb' | hb' | ⟨hh, hb'⟩⟩ | ⟨_, hh, hb'⟩
      · rw [hb'] at hb
        contradiction
      · rw [hb'] at hb
        cases hb
        exact Or.inl rfl
      · rw [hb'] at hb
        cases hb
        exact Or.inr ⟨fun heq => hh ((hinj req').mpr heq), rfl⟩
      · rw [hb'] at hb
        contradiction
  · rintro σ' pid o req' hrun hnew ho rfl
    obtain ⟨_, hreach⟩ := reach_of_service (fun _ _ h => h)
      (fun _ _ _ _ => startsAct_of_stepped) skipsOnly_anyKey hrunning hrun
    have hstored' := hstored.mono (older_of_reach hrunning.owned hreach)
    obtain ⟨n, σ'', p, hexec, hdb, hp, hprog⟩ := create_alone hstored' hnew ho
    refine ⟨n, σ'', p, hexec, hdb, hp, ?_⟩
    rw [hprog]
    exact if_congr (eq_comm.trans (hinj req')) rfl rfl

end Claim

section Sample

/-- A number in front of a text, as that many strokes and a mark. -/
def strokes (n : ℕ) (rest : List Char) : List Char := List.replicate n '1' ++ '0' :: rest

def field (s : String) (rest : List Char) : List Char := strokes s.length (s.toList ++ rest)

theorem strokes_inj {n m : ℕ} {xs ys : List Char} (h : strokes n xs = strokes m ys) :
    n = m ∧ xs = ys := by
  unfold strokes at h
  induction n generalizing m with
  | zero =>
    cases m with
    | zero => simpa using h
    | succ m => simp [List.replicate_succ] at h
  | succ n ih =>
    cases m with
    | zero => simp [List.replicate_succ] at h
    | succ m =>
      simp only [List.replicate_succ, List.cons_append, List.cons.injEq, true_and] at h
      exact ⟨congrArg (· + 1) (ih h).1, (ih h).2⟩

theorem field_inj {s t : String} {xs ys : List Char} (h : field s xs = field t ys) :
    s = t ∧ xs = ys := by
  obtain ⟨hlen, happ⟩ := strokes_inj h
  obtain ⟨hst, hxs⟩ := List.append_inj happ hlen
  exact ⟨String.toList_inj.mp hst, hxs⟩

/-- A hash without collisions: the text of the payload itself. -/
def textOf : Payload → List Char
  | .create r => 'c' :: field r.merchantId (strokes r.payerAccountId (strokes r.payeeAccountId
      (strokes r.amount.toNat (field r.currency []))))
  | .refund id amount => 'r' :: strokes id (strokes amount.toNat (strokes (-amount).toNat []))

theorem textOf_injective : Function.Injective textOf := by
  intro x y h
  cases x with
  | create r =>
    cases y with
    | create r' =>
      obtain ⟨hm, h₁⟩ := field_inj (List.cons.inj h).2
      obtain ⟨hpayer, h₂⟩ := strokes_inj h₁
      obtain ⟨hpayee, h₃⟩ := strokes_inj h₂
      obtain ⟨hamount, h₄⟩ := strokes_inj h₃
      obtain ⟨hcurrency, _⟩ := field_inj h₄
      have hpos := r.amount_pos
      have hpos' := r'.amount_pos
      obtain ⟨m, payer, payee, amount, currency, _, _, _⟩ := r
      obtain ⟨m', payer', payee', amount', currency', _, _, _⟩ := r'
      dsimp only at *
      obtain rfl : amount = amount' := by omega
      subst hm hpayer hpayee hcurrency
      rfl
    | refund id amount =>
      have hc := (List.cons.inj h).1
      contradiction
  | refund id amount =>
    cases y with
    | create r =>
      have hc := (List.cons.inj h).1
      contradiction
    | refund id' amount' =>
      obtain ⟨hid, h₁⟩ := strokes_inj (List.cons.inj h).2
      obtain ⟨hplus, h₂⟩ := strokes_inj h₁
      obtain ⟨hminus, _⟩ := strokes_inj h₂
      obtain rfl : amount = amount' := by omega
      rw [hid]

def textExternals : Externals := { sampleExternals with hash := fun x => String.ofList (textOf x) }

end Sample

end ApexPayments.Service
