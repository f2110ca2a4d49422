import ApexPayments.ExactlyOnce
import Mathlib.Data.Set.Basic

/-!
What a failing call of `create` leaves behind. A payment is being processed, and a key
is in progress, only while a call of `create` owns it. A call that raises after its hold
has committed owns them for ever, since nothing else resolves a payment that is PROCESSING.
-/
namespace ApexPayments.Service

open Domain Store Ledger Payments Webhooks Relay RowLocking

section Unfinished

/-- The payments that are being processed. -/
def processing (s : Database) : Set Uuid :=
  {id | ∃ p, s.payments.find? id = some p ∧ p.status = .processing}

/-- The keys that are in progress. -/
def claimed (s : Database) : Set (String × String) :=
  {key | ∃ r, s.idempotencyKeys.find? key = some r ∧ r.status = .inProgress}

/-- No payment is left in processing and no key is left in progress. -/
def NoneStranded (s : Database) : Prop :=
  (∀ p ∈ s.payments.rows, p.status ≠ .processing) ∧
    ∀ r ∈ s.idempotencyKeys.rows, r.status ≠ .inProgress

theorem noneStranded_iff (s : Database) :
    NoneStranded s ↔ processing s = ∅ ∧ claimed s = ∅ := by
  constructor
  · intro h
    constructor
    · apply Set.eq_empty_of_forall_notMem
      intro id ⟨p, hp, hst⟩
      exact h.1 p (Table.mem_of_find? hp) hst
    · apply Set.eq_empty_of_forall_notMem
      intro key ⟨r, hr, hst⟩
      exact h.2 r (Table.mem_of_find? hr) hst
  · intro ⟨hpayments, hrecords⟩
    constructor
    · intro p hp hst
      have hmem : p.id ∈ processing s := ⟨p, Table.find?_of_mem hp, hst⟩
      simp [hpayments] at hmem
    · intro r hr hst
      have hmem : (r.merchantId, r.idemKey) ∈ claimed s := ⟨r, Table.find?_of_mem hr, hst⟩
      simp [hrecords] at hmem

theorem mem_processing_put (s : Database) (p : Payment) (id : Uuid) :
    id ∈ processing (s.put (.payment p)) ↔
      id = p.id ∧ p.status = .processing ∨ id ≠ p.id ∧ id ∈ processing s := by
  change (∃ q, (s.payments.put p).find? id = some q ∧ q.status = .processing) ↔ _
  by_cases hid : id = p.id
  · subst hid
    rw [s.payments.find?_put_self p]
    simp
  · rw [s.payments.find?_put_of_ne p id hid]
    simp [hid, processing]

theorem mem_claimed_put (s : Database) (r : IdempotencyRecord) (key : String × String) :
    key ∈ claimed (s.put (.idempotencyRecord r)) ↔
      key = (r.merchantId, r.idemKey) ∧ r.status = .inProgress ∨
        key ≠ (r.merchantId, r.idemKey) ∧ key ∈ claimed s := by
  change (∃ q, (s.idempotencyKeys.put r).find? key = some q ∧ q.status = .inProgress) ↔ _
  by_cases hkey : key = (r.merchantId, r.idemKey)
  · subst hkey
    rw [s.idempotencyKeys.find?_put_self r]
    simp
  · rw [s.idempotencyKeys.find?_put_of_ne r key hkey]
    simp [hkey, claimed]

/-- No payment starts to be processed and no key to be in progress. -/
structure Fades (s s' : Database) : Prop where
  payments : processing s' ⊆ processing s
  records : claimed s' ⊆ claimed s

namespace Fades

variable {s s' s'' : Database}

theorem refl (s : Database) : Fades s s := ⟨subset_rfl, subset_rfl⟩

theorem trans (h : Fades s s') (h' : Fades s' s'') : Fades s s'' :=
  ⟨h'.payments.trans h.payments, h'.records.trans h.records⟩

theorem of_eq (hp : s'.payments = s.payments) (hr : s'.idempotencyKeys = s.idempotencyKeys) :
    Fades s s' := by
  constructor
  · rw [processing, processing, hp]
  · rw [claimed, claimed, hr]

theorem of_same (h : SameRecords s s') : Fades s s' := of_eq h.payments h.idempotencyKeys

theorem put_payment {p : Payment} (h : p.status ≠ .processing) :
    Fades s (s.put (.payment p)) := by
  refine ⟨?_, subset_rfl⟩
  intro id hid
  rcases (mem_processing_put s p id).mp hid with ⟨-, hst⟩ | ⟨-, hid⟩
  · exact absurd hst h
  · exact hid

theorem put_record {r : IdempotencyRecord} (h : r.status ≠ .inProgress) :
    Fades s (s.put (.idempotencyRecord r)) := by
  refine ⟨subset_rfl, ?_⟩
  intro key hkey
  rcases (mem_claimed_put s r key).mp hkey with ⟨-, hst⟩ | ⟨-, hkey⟩
  · exact absurd hst h
  · exact hkey

end Fades

theorem Moved.status_ne {used ids : List Uuid} {s s' : Database} {p q : Payment}
    (h : Moved used s p q ids s') : q.status ≠ .processing := by
  cases h <;> (intro hst; contradiction)

theorem Moved.fades {used ids : List Uuid} {s s' : Database} {p q : Payment}
    (h : Moved used s p q ids s') : Fades s s' :=
  (Fades.put_payment h.status_ne).trans (.of_same h.same)

theorem ReversedAll.fades {ps : List Payment} {s s' : Database} {used used' : List Uuid}
    (h : ReversedAll ps s used s' used') : Fades s s' := by
  induction h with
  | nil s used => exact .refl s
  | cons p ps s used ids s₁ s₂ used₂ found moved rest ih => exact moved.fades.trans ih

end Unfinished

section Commits

variable {F : Frame backend} {ext : Externals} {h : Head} {next : Program Reply}
  {L : Session backend}

/-- What a commit leaves unfinished was unfinished before and not the caller's own, or
is what the caller owns from now on. -/
structure Closes (own new : Own) (s s' : Database) : Prop where
  payments : ∀ id ∈ processing s',
    id ∈ processing s ∧ own.map Prod.fst ≠ some id ∨ new.map Prod.fst = some id
  records : ∀ key ∈ claimed s',
    key ∈ claimed s ∧ own.map Prod.snd ≠ some key ∨ new.map Prod.snd = some key

theorem closes_of_fades {s s' : Database} (hown : ownOf h = none) (hf : Fades s s') (new : Own) :
    Closes (ownOf h) new s s' := by
  rw [hown]
  exact ⟨fun id hid => Or.inl ⟨hf.payments hid, by simp⟩,
    fun key hkey => Or.inl ⟨hf.records hkey, by simp⟩⟩

/-- A refund claims its key and completes it in one transaction. -/
theorem fades_of_refund {s s₁ : Database} {p : Payment} {r : Refund} {amount : ℤ} {k hash : String}
    {code : ℤ} {id : Uuid} {body : ResponseBody}
    (hsame : SameRecords (((s.put (.idempotencyRecord (inProgress "merchant_refund" k hash))).put
      (.refund r)).put (.payment (refunded amount p))) s₁)
    (hst : p.status = .succeeded ∨ p.status = .refundPending) :
    Fades s (s₁.put (.idempotencyRecord
      (completed id code body (inProgress "merchant_refund" k hash)))) := by
  have hrefunded : (refunded amount p).status ≠ .processing := by
    unfold refunded
    rcases hst with hst | hst <;> rw [hst] <;> split_ifs <;> simp
  constructor
  · intro i hi
    have hpay := (Fades.of_same hsame).payments hi
    exact (Fades.put_payment hrefunded).payments hpay
  · intro key hkey
    rcases (mem_claimed_put s₁ _ key).mp hkey with ⟨-, hcompleted⟩ | ⟨hne, hkey⟩
    · simp [completed] at hcompleted
    · have hrec := (Fades.of_same hsame).records hkey
      rcases (mem_claimed_put s _ key).mp hrec with ⟨heq, -⟩ | ⟨-, hkey⟩
      · exact absurd heq hne
      · exact hkey

/-- Every commit finishes what its call owned, and only a hold leaves something to finish. -/
theorem closes_of_committed {skips : Key → Prop} {a : Moment} {pid : ℕ} (hinv : Owned ext a)
    (hp : a.heads pid = some h) (hc : Committed ext (a.frame Older skips h) h next L) :
    Closes (ownOf h) (ownOf (h.resume (view a.db L.flushed) next [.committed L.flushed]))
      a.db (view a.db L.flushed) := by
  cases hc with
  | replayed k req r resp hcall ht hr =>
    rw [hr.flushed]
    exact closes_of_fades (ownOf_start ht) (.refl _) _
  | opened k req p txn event hcall ht ho =>
    have hnew : ownOf (h.resume (view a.db L.flushed) next [.committed L.flushed]) =
        some (p.id, (req.merchantId, k)) := by
      apply ownOf_owned (h := h.resume _ _ _) hcall
      unfold owned Header.resume
      rw [hcall, ht]
      simp [ho.opened]
    have hfades := Fades.of_same ho.effect.same
    rw [hnew, ownOf_start ht]
    constructor
    · intro id hid
      rcases (mem_processing_put _ p id).mp (hfades.payments hid) with ⟨rfl, -⟩ | ⟨-, hid⟩
      · exact Or.inr rfl
      · exact Or.inl ⟨hid, by simp⟩
    · intro key hkey
      rcases (mem_claimed_put _ _ key).mp (hfades.records hkey) with ⟨rfl, -⟩ | ⟨-, hkey⟩
      · exact Or.inr rfl
      · exact Or.inl ⟨hkey, by simp⟩
  | resolved k req p p' ws result hcall hws ht hr =>
    have howned := owned_answered hcall hws ht
    obtain ⟨rfl, ids, s₁, hmoved, -, hview⟩ := resolves_owned hinv hp hcall howned hr
    rw [ownOf_owned hcall howned, hview]
    have hid := id_decided result p'
    constructor
    · intro id hmem
      have hs₁ : id ∈ processing s₁ := hmem
      refine Or.inl ⟨hmoved.fades.payments hs₁, ?_⟩
      intro heq
      obtain rfl : p'.id = id := by simpa using heq
      obtain ⟨q, hq, hst⟩ := hs₁
      rw [← hid, hmoved.find_self] at hq
      cases hq
      exact hmoved.status_ne hst
    · intro key hmem
      rcases (mem_claimed_put s₁ _ key).mp hmem with ⟨-, hst⟩ | ⟨hne, hmem⟩
      · simp [completed] at hst
      · refine Or.inl ⟨hmoved.fades.records hmem, ?_⟩
        intro heq
        exact hne (Option.some.inj heq).symm
  | refundReplayed k id req hcall ht hr =>
    rw [hr.1]
    exact closes_of_fades (ownOf_start ht) (.refl _) _
  | refunded k id req p r txn event hcall ht hr =>
    obtain ⟨s₁, htrans, hview⟩ := hr.effect
    apply closes_of_fades (ownOf_start ht)
    rw [show view a.db L.flushed = _ from hview]
    exact fades_of_refund htrans.same hr.allowed
  | webhook rawBody signature event eventId i hcall ht hw hpend =>
    apply closes_of_fades (ownOf_start ht)
    rcases hw.effect with hfl | hrec
    · rw [hfl]
      exact .refl _
    · have hview : view a.db L.flushed = (a.frame Older skips h).working L :=
        (Frame.working_of_pending (F := a.frame Older skips h) L hpend).symm
      rw [hview]
      have hput : Fades a.db (a.db.put (.webhookEvent ⟨eventId, rawBody, .processed⟩)) :=
        .of_eq rfl rfl
      cases hrec.applied with
      | unreferenced hfalsy hwork hused =>
        rw [hwork]
        exact hput
      | looked reference store ps href hne hlook hsnap htrans =>
        generalize (a.frame Older skips h).working L = s₁ at htrans ⊢
        generalize usedBy (a.frame Older skips h) L = used₁ at htrans
        cases htrans with
        | idle hidle => exact hput
        | captured p ids s' hps hst hkind hmoved => exact hput.trans hmoved.fades
        | failed p ids s' hps hst hkind hmoved => exact hput.trans hmoved.fades
  | expired timeoutMinutes ps hcall ht he =>
    exact closes_of_fades (ownOf_start ht) he.reversed.fades _
  | posted type referenceId postings txn hcall ht hpost =>
    apply closes_of_fades (ownOf_start ht)
    have hs := hpost.posted.elsewhere
    unfold SameElsewhere at hs
    apply Fades.of_eq
    · exact (congrArg Database.payments hs).trans rfl
    · exact (congrArg Database.idempotencyKeys hs).trans rfl
  | drained batchSize evs t hcall ht hd =>
    apply closes_of_fades (ownOf_start ht)
    obtain ⟨s, order, hdrawn⟩ := hd.select
    rw [hd.flushed]
    exact publishAll_induction Fades.refl (fun _ _ _ => Fades.trans) t
      (fun _ _ _ _ => .of_eq rfl rfl) hdrawn.nodup hdrawn.current

end Commits

section Owners

variable {ext : Externals} {skips : Key → Prop} {a a' : Moment}

/-- Whatever is unfinished has an owner. -/
structure Accounted (a : Moment) : Prop where
  payments : ∀ id ∈ processing a.db, ∃ pid h,
    a.heads pid = some h ∧ (ownOf h).map Prod.fst = some id
  records : ∀ key ∈ claimed a.db, ∃ pid h,
    a.heads pid = some h ∧ (ownOf h).map Prod.snd = some key

/-- One process changes: what it stops owning is finished, what it opens it owns. -/
theorem owners_put {γ : Type} (π : Uuid × (String × String) → γ) {X X' : Set γ} {pid : ℕ}
    {h' : Head} (hX : ∀ x ∈ X, ∃ pid h, a.heads pid = some h ∧ (ownOf h).map π = some x)
    (hstep : ∀ x ∈ X', (x ∈ X ∧ ∀ h, a.heads pid = some h → (ownOf h).map π ≠ some x) ∨
      (ownOf h').map π = some x) :
    ∀ x ∈ X', ∃ pid₂ h₂, (a.put pid h').heads pid₂ = some h₂ ∧ (ownOf h₂).map π = some x := by
  intro x hx
  rcases hstep x hx with ⟨hold, hown⟩ | hnew
  · obtain ⟨pid₂, h₂, hp₂, ho₂⟩ := hX x hold
    have hne : pid₂ ≠ pid := by
      rintro rfl
      exact hown h₂ hp₂ ho₂
    exact ⟨pid₂, h₂, by simpa [Atomic.put, Function.update_of_ne hne] using hp₂, ho₂⟩
  · exact ⟨pid, h', by simp [Atomic.put], hnew⟩

theorem Accounted.put {pid : ℕ} {h' : Head} {db' : Database} {spent' : List Uuid}
    (hacc : Accounted a) (hstep : Closes ((a.heads pid).bind ownOf) (ownOf h') a.db db') :
    Accounted { a.put pid h' with db := db', spent := spent' } := by
  constructor
  · apply owners_put Prod.fst hacc.payments
    intro id hid
    apply (hstep.payments id hid).imp_left
    intro ⟨hold, hown⟩
    refine ⟨hold, fun h hp => ?_⟩
    simpa [hp] using hown
  · apply owners_put Prod.snd hacc.records
    intro key hkey
    apply (hstep.records key hkey).imp_left
    intro ⟨hold, hown⟩
    refine ⟨hold, fun h hp => ?_⟩
    simpa [hp] using hown

/-- Nothing is committed and the process owns what it owned. -/
theorem closes_of_keep {own new : Own} (h : own = none ∨ new = own) (s : Database) :
    Closes own new s s := by
  rcases h with rfl | rfl
  · exact ⟨fun id hid => Or.inl ⟨hid, by simp⟩, fun key hkey => Or.inl ⟨hkey, by simp⟩⟩
  · constructor
    · intro id hid
      by_cases hown : new.map Prod.fst = some id
      · exact Or.inr hown
      · exact Or.inl ⟨hid, hown⟩
    · intro key hkey
      by_cases hown : new.map Prod.snd = some key
      · exact Or.inr hown
      · exact Or.inl ⟨hkey, hown⟩

/-- Every whole transaction accounts for what it leaves unfinished. -/
theorem accounted_step (hinv : Owned ext a) {act : Atomic.Act backend Call}
    (hs : Atomic.Step (program ext) Older skips a act a') (hacc : Accounted a) : Accounted a' := by
  cases hs with
  | start pid c hp =>
    apply hacc.put
    rw [hp]
    exact closes_of_keep (Or.inl rfl) a.db
  | call pid h q next ans L hp ho hr =>
    apply hacc.put
    obtain ⟨k, req, p, ws, hc, hb, ht, hws⟩ := calling_of_stage (hinv.stage pid h hp) hr
    have hown : ownOf h = some (p.id, (req.merchantId, k)) := by
      apply ownOf_owned hc
      unfold owned
      rw [hc, ht]
      simp [hws]
    have hown' : ownOf (h.resume a.db (next ans) [.answered q ans]) =
        some (p.id, (req.merchantId, k)) := by
      apply ownOf_owned (h := h.resume _ _ _) hc
      unfold owned Header.resume
      rw [hc, ht]
      simp [hws]
    rw [hp]
    exact closes_of_keep (Or.inr (hown'.trans hown.symm)) a.db
  | commit pid h next L hp ho hr =>
    apply hacc.put
    rw [hp]
    exact closes_of_committed hinv hp (committed_of_stage (hinv.stage pid h hp) hr)
  | fail pid h e hp ho hr hv he =>
    apply hacc.put
    have hown : ownOf (h.resume a.db (.raise e) []) = ownOf h := by
      unfold ownOf owned Header.resume
      rw [List.append_nil]
    rw [hp]
    exact closes_of_keep (Or.inr hown) a.db

theorem accounted_of_reach {allowed : Moment → Atomic.Act backend Call → Prop} {a₀ : Moment}
    (h₀ : Owned ext a₀) (hacc : Accounted a₀)
    (h : Atomic.Reach (program ext) allowed Older skips a₀ a) : Accounted a := by
  induction h with
  | refl => exact hacc
  | tail hreach hstep ih =>
    obtain ⟨act, hs, _⟩ := hstep
    exact accounted_step (owned_of_reach h₀ hreach) hs ih

end Owners

section Runs

variable {ext : Externals} {σ σ' : State}

/-- Every call of `create` that was started has returned or raised. -/
def CreatesEnded (σ : State) : Prop :=
  ∀ pid p k req, σ.procs pid = some p → p.call = .create k req → p.Finished

/-- The step makes a call of `create` raise whose hold has committed. -/
def FailsAfterHold (ext : Externals) (σ : State) (l : Label backend Call) : Prop :=
  ∃ p q σ' p', σ.procs l.pid = some p ∧ openedBy p.toHeader = some q ∧
    σ.step (program ext) l = some σ' ∧ σ'.procs l.pid = some p' ∧ p'.Raised

theorem openedBy_resume {h : Head} {s : Database} {next : Program Reply} {q : Query}
    {ans : Answer q} : openedBy (h.resume s next [.answered q ans]) = openedBy h := by
  obtain ⟨call, since, base, _ | ⟨_ | _, trace⟩⟩ := h <;> cases call <;> rfl

/-- A raised error leaves the hold of its call as it is. -/
theorem openedBy_of_raising {P : Call → Prop} {l : Label backend Call}
    {act : Option (Atomic.Act backend Call)} (hrunning : Running ext P anyKey σ)
    (hs : System.Stepped (program ext) σ l act σ') {p' : Process backend Call Reply}
    (hp' : σ'.procs l.pid = some p') (hraised : p'.Raised) (q : Payment) :
    openedBy p'.toHeader = some q ↔
      ∃ p, σ.procs l.pid = some p ∧ openedBy p.toHeader = some q := by
  have habort : ∀ pid p e, σ.procs pid = some p → (σ.abort pid p e).procs pid = some p' →
      (openedBy p'.toHeader = some q ↔ ∃ p, σ.procs pid = some p ∧ openedBy p.toHeader = some q) := by
    intro pid p e hp hp'
    cases (System.procs_set_self ..).symm.trans hp'
    have hsame : openedBy (Header.resume p.toHeader σ.db (.raise e) []) = openedBy p.toHeader := by
      unfold openedBy Header.resume
      rw [List.append_nil]
    simp [Process.atBoundary, hsame, hp]
  obtain ⟨e, he⟩ := hraised
  cases hs with
  | start pid c hnone =>
    cases (System.procs_set_self ..).symm.trans hp'
    rw [Label.pid, hnone]
    cases c <;> simp [Process.atBoundary, openedBy]
  | cancel pid p hp hv he' => exact habort pid p _ hp hp'
  | deferred pid o p next e' hp hq hL hd => exact habort pid p _ hp hp'
  | refused pid o p e' L hp hl => exact habort pid p _ hp hp'
  | call pid o p query next hp hq hL =>
    cases (System.procs_set_self ..).symm.trans hp'
    simp [Process.atBoundary, openedBy_resume, Label.pid, hp]
  | commit pid o p next hp hq hL hd =>
    cases (System.procs_set_self ..).symm.trans hp'
    have hrun := System.runs_of_commit hrunning.sound hp hq hL hd
    have hstage := hrunning.owned.stage pid p.toHeader (System.toAtomic_heads hp)
    have hnext : next = .raise e := he
    rcases next_of_committed (committed_of_stage hstage hrun) with ⟨v, rfl⟩ | ⟨k, req, p, rfl⟩ <;>
      contradiction
  | advance pid o p prog L issued hp hne hl hi =>
    cases (System.procs_set_self ..).symm.trans hp'
    exact absurd he (hne e)

theorem starts_any (σ : State) (l : Label backend Call) : Starts (fun _ => True) σ l := by
  cases l <;> trivial

/-- While no call fails after its hold, no call that holds a payment has raised. -/
theorem unraised_of_run {db : Database} {spent : List Uuid}
    (h : System.Run (program ext) (fun σ l => ¬ FailsAfterHold ext σ l)
      (System.initial db spent) σ) :
    ∀ pid p q, σ.procs pid = some p → openedBy p.toHeader = some q → ¬ p.Raised := by
  induction h with
  | refl =>
    intro pid p q hp
    contradiction
  | @tail σ₁ σ₂ hrun hstep ih =>
    obtain ⟨l, hl, hok⟩ := hstep
    obtain ⟨act, hs⟩ := System.stepped_of_step hl
    intro pid p' q hp' hq hraised
    by_cases hpid : pid = l.pid
    · subst hpid
      have hany : System.Run (program ext) (Starts fun _ => True) (System.initial db spent) σ₁ :=
        System.Run.mono hrun fun σ l _ => starts_any σ l
      have hrunning := (changes_of_run (running_initial db spent) hany).1
      obtain ⟨p, hp, ho⟩ := (openedBy_of_raising hrunning hs hp' hraised q).mp hq
      exact hok ⟨p, q, σ₂, p', hp, ho, hl, hp', hraised⟩
    · rw [hs.procs_of_ne hpid] at hp'
      exact ih pid p' q hp' hq hraised

/-- A call that has returned owns nothing. -/
theorem owned_of_pure {h : Head} (hs : Stage ext h.call h.base h.trace) {v : Reply}
    (hb : h.base = .pure v) : owned h = none := by
  obtain ⟨call, since, base, trace⟩ := h
  dsimp only at hs hb
  cases hs with
  | returned c reply ws hc =>
    cases call with
    | create k req => exact absurd trivial hc
    | _ => rfl
  | replayed k req code resp => rfl
  | resolved k req p ws ws₂ ans resp hws hws₂ => rfl
  | start c => exact absurd hb (program_ne_pure (Frame.alone since []) _ v)
  | answered k req p ws result hws =>
    unfold resolve applyResult at hb
    cases hout : result.outcome <;> rw [hout] at hb <;> contradiction
  | _ => contradiction

/-- A call that has raised still owns the payment that it has opened. -/
theorem owned_of_raised {h : Head} (hs : Stage ext h.call h.base h.trace) {e : Exn}
    (hb : h.base = .raise e) {q : Payment} (ho : openedBy h = some q) : owned h = some q := by
  obtain ⟨call, since, base, trace⟩ := h
  dsimp only at hs hb
  cases hs with
  | start c => cases call <;> contradiction
  | failed c e => cases call <;> contradiction
  | stranded k req p ws e hws => exact ho
  | strandedLate k req p ws ans e hws => exact ho
  | returned c reply ws hc => contradiction
  | held k req p ws hws => contradiction
  | answered k req p ws result hws => exact ho
  | replayed k req code resp => contradiction
  | resolved k req p ws ws₂ ans resp hws hws₂ => contradiction

end Runs

section Claim

variable {ext : Externals} {db : Database} {spent : List Uuid} {σ : State}

/-- What a call of `create` owns is unfinished. -/
theorem unfinished_of_owned {P : Call → Prop} (hrunning : Running ext P anyKey σ) {pid : ℕ}
    {p : Process backend Call Reply} {q : Payment} (hp : σ.procs pid = some p)
    (ho : owned p.toHeader = some q) :
    q.id ∈ processing σ.db ∧ ∃ key, key ∈ claimed σ.db := by
  have hopened := openedBy_of_owned ho
  obtain ⟨k, req, hc⟩ := create_of_openedBy hopened
  have hholds := hrunning.owned.holds pid _ k req q (System.toAtomic_heads hp) hc hopened
  obtain ⟨hpay, hrec, -⟩ := hholds.unresolved ho
  obtain ⟨createdAt, hmade⟩ := hholds.made
  exact ⟨⟨q, hpay, by rw [hmade]; rfl⟩, (req.merchantId, k), _, hrec, rfl⟩

/-- A call that fails after its hold leaves its payment and its key unfinished for ever. -/
theorem stranded_of_failure {σ₁ σ₂ : State} {l : Label backend Call}
    (h : System.Run (program ext) (Starts fun _ => True) (System.initial db spent) σ)
    (hfail : FailsAfterHold ext σ l) (hl : σ.step (program ext) l = some σ₁)
    (h₂ : System.Run (program ext) (Starts fun _ => True) σ₁ σ₂) : ¬ NoneStranded σ₂.db := by
  obtain ⟨p, q, σ', p', hp, ho, hl', hp', hraised⟩ := hfail
  obtain rfl : σ₁ = σ' := Option.some.inj (hl.symm.trans hl')
  obtain ⟨act, hs⟩ := System.stepped_of_step hl
  have hrunning := (changes_of_run (running_initial db spent) h).1
  have ho' := (openedBy_of_raising hrunning hs hp' hraised q).mpr ⟨p, hp, ho⟩
  have hrunning₁ := (changes_of_run hrunning (.single ⟨l, hl, starts_any σ l⟩)).1
  have hrunning₂ := (changes_of_run hrunning₁ h₂).1
  have hp₂ := System.procs_of_finished h₂ hp' (Or.inr hraised)
  obtain ⟨e, he⟩ := hraised
  have hstage := hrunning₂.owned.stage _ _ (System.toAtomic_heads hp₂)
  have howned := owned_of_raised hstage ((hrunning₂.sound.replayed _ p' hp₂).raised e he) ho'
  intro hnone
  have hempty := ((noneStranded_iff σ₂.db).mp hnone).1
  have hmem := (unfinished_of_owned hrunning₂ hp₂ howned).1
  simp [hempty] at hmem

/-- If no call has raised after its hold and all calls of `create` have ended, nothing is
left unfinished. -/
theorem noneStranded_of_ended (hpayments : processing db = ∅) (hrecords : claimed db = ∅)
    (h : System.Run (program ext) (Starts fun _ => True) (System.initial db spent) σ)
    (hunraised : ∀ pid p q, σ.procs pid = some p → openedBy p.toHeader = some q → ¬ p.Raised)
    (hended : CreatesEnded σ) : NoneStranded σ.db := by
  have h₀ : Running ext (fun _ => True) anyKey (System.initial db spent) := running_initial db spent
  obtain ⟨hrunning, hreach⟩ := reach_of_service (fun _ _ h => h)
    (fun _ _ _ _ => startsAct_of_stepped) skipsOnly_anyKey h₀ h
  have hacc : Accounted σ.toAtomic := by
    apply accounted_of_reach h₀.owned _ hreach
    constructor
    · intro id hid
      exact absurd hid (hpayments ▸ Set.notMem_empty id)
    · intro key hkey
      exact absurd hkey (hrecords ▸ Set.notMem_empty key)
  have hnone : ∀ pid h, σ.toAtomic.heads pid = some h → ownOf h = none := by
    intro pid h hp
    obtain ⟨p, hproc, rfl⟩ := Option.map_eq_some_iff.mp hp
    by_contra hown
    obtain ⟨x, hx⟩ := Option.ne_none_iff_exists'.mp hown
    obtain ⟨k, req, q, hc, ho, -⟩ := owned_of_ownOf hx
    have hopened := openedBy_of_owned ho
    rcases hended pid p k req hproc hc with ⟨v, hv⟩ | hraised
    · have hstage := hrunning.owned.stage pid _ (System.toAtomic_heads hproc)
      rw [owned_of_pure hstage (base_of_pure hrunning hproc hv)] at ho
      contradiction
    · exact hunraised pid p q hproc hopened hraised
  rw [noneStranded_iff]
  constructor
  · apply Set.eq_empty_of_forall_notMem
    intro id hid
    obtain ⟨pid, h, hp, ho⟩ := hacc.payments id hid
    rw [hnone pid h hp] at ho
    contradiction
  · apply Set.eq_empty_of_forall_notMem
    intro key hkey
    obtain ⟨pid, h, hp, ho⟩ := hacc.records key hkey
    rw [hnone pid h hp] at ho
    contradiction

section Sample

/-- A run that ends without any call having raised has met no failure. -/
theorem unfailed_of_unraised {σ₀ : State} (h : System.Run (program ext) (Starts fun _ => True) σ₀ σ)
    (hend : ∀ pid p, σ.procs pid = some p → ¬ p.Raised) :
    System.Run (program ext) (fun σ l => ¬ FailsAfterHold ext σ l) σ₀ σ := by
  induction h using Relation.ReflTransGen.head_induction_on with
  | refl => exact .refl
  | head hstep hrest ih =>
    obtain ⟨l, hl, -⟩ := hstep
    refine .head ⟨l, hl, ?_⟩ ih
    intro ⟨p, q, σ', p', hp, ho, hl', hp', hraised⟩
    obtain rfl := Option.some.inj (hl.symm.trans hl')
    exact hend l.pid p' (System.procs_of_finished hrest hp' (Or.inr hraised)) hraised

/-- In a run of one process, what holds of its end holds of all processes. -/
theorem alone_of_exec {c : Call} {n : ℕ} {result : Except String AuthorizationResult} {t : Time}
    (h : System.exec (program ext) (.start 0 c :: sampleSteps 0 10 n result t)
      (System.initial db spent) = some σ) {Q : Process backend Call Reply → Prop}
    (hend : ∀ p, σ.procs 0 = some p → Q p) : ∀ pid p, σ.procs pid = some p → Q p := by
  intro pid p hp
  by_cases hpid : pid = 0
  · subst hpid
    exact hend p hp
  · rw [System.procs_of_exec h] at hp
    · contradiction
    · intro l hl
      rcases List.mem_cons.mp hl with rfl | hl
      · exact hpid
      · obtain ⟨i, _, rfl⟩ := List.mem_map.mp hl
        exact hpid

/-- How a process and the statuses of all payments stand. -/
def outcomes (σ : State) : Option Bool × Option (Option Exn) × List PaymentStatus :=
  ((σ.procs 0).map fun p => p.prog.value?.isSome, (σ.procs 0).map fun p => p.prog.error?,
    σ.db.payments.rows.map Payment.status)

end Sample

end Claim

end ApexPayments.Service
