import ApexPayments.KeyScopes
import ApexPayments.Waiting

/-!
Racing duplicates of one request. Every request first looks its record up and inserts it
if it is missing, so the duplicates of a request race for one row. As long as no insert
meets a committed row, each duplicate gets the stored reply or is told to come back.
-/
namespace ApexPayments.Service

open Domain Store Ledger Payments Webhooks RowLocking

section Answers

variable {ext : Externals} {s s' : Database} {m k : String} {payload : Payload}

/-- The answer to a request from its stored record. -/
def storedReply (ext : Externals) (s : Database) (m k : String) (payload : Payload)
    (reply : ℤ → Option ResponseBody → Except Exn Reply) : Except Exn Reply :=
  match s.idempotencyKeys.find? (m, k) with
  | none => .error .noResultFound
  | some r =>
      if r.requestHash ≠ ext.hash payload then .error (.idempotencyMismatch k)
      else
        match r.status with
        | .inProgress => .error (.idempotencyConflict k)
        | .completed => reply (codeOr200 r.responseCode) r.responseBody

def paymentReply (code : ℤ) (body : Option ResponseBody) : Except Exn Reply :=
  (paymentResponse body).map (.payment code)

def refundReplyOf (code : ℤ) (body : Option ResponseBody) : Except Exn Reply :=
  (refundResponse body).map (.refund code)

/-- How a call is answered that finds its record or its event in the store. -/
def Call.stored (ext : Externals) (s : Database) : Call → Except Exn Reply
  | create k req => storedReply ext s req.merchantId k (.create req) paymentReply
  | refund k id req => storedReply ext s "merchant_refund" k (.refund id req.amount) refundReplyOf
  | _ => .ok .handled

/-- A claim looks the record up, and inserts it if it is missing. -/
theorem checks_claim {reply : ℤ → Option ResponseBody → Except Exn Reply}
    {f : Option (ℤ × Option ResponseBody) → Program Reply}
    (hf : ∀ code body, f (some (code, body)) = Prog.answering (reply code body)) :
    (claimOrReplay ext m k payload >>= f).Checks (Key.idempotencyRecord m k)
      (fun s => storedReply ext s m k payload reply) := by
  unfold claimOrReplay
  refine Prog.Checks.read _ ?_ ?_
  · intro s hs
    have hsome : s.idempotencyKeys.find? (m, k) ≠ none := fun hnone =>
      hs (Option.map_eq_none_iff.mpr hnone)
    obtain ⟨⟨m', k', hash, status, resource, code, body⟩, hr⟩ := Option.ne_none_iff_exists'.mp hsome
    dsimp only [storedReply]
    rw [hr]
    simp only [Prog.bind]
    by_cases hhash : hash = ext.hash payload
    · rw [if_neg (not_not.mpr hhash), if_neg (not_not.mpr hhash)]
      cases status with
      | inProgress => rfl
      | completed => exact hf (codeOr200 code) body
    · rw [if_pos hhash, if_pos hhash]
      rfl
  · intro s hs
    have hnone : s.idempotencyKeys.find? (m, k) = none := Option.map_eq_none_iff.mp hs
    dsimp only
    rw [hnone]
    exact ⟨.idempotencyRecord (inProgress m k (ext.hash payload)), _, rfl, rfl⟩

theorem checks_create (k : String) (req : CreatePaymentRequest) :
    (program ext (.create k req)).Checks (Key.idempotencyRecord req.merchantId k)
      (fun s => (Call.create k req).stored ext s) := by
  refine Prog.Checks.draw _ fun id => ?_
  apply checks_claim
  intro code body
  cases body with
  | none => rfl
  | some body => cases body <;> rfl

theorem checks_refund (k : String) (id : Uuid) (req : RefundRequest) :
    (program ext (.refund k id req)).Checks (Key.idempotencyRecord "merchant_refund" k)
      (fun s => (Call.refund k id req).stored ext s) := by
  change ((claimOrReplay ext "merchant_refund" k (.refund id req.amount) >>= _) >>= _).Checks _ _
  rw [Prog.bind_assoc]
  apply checks_claim
  intro code body
  cases body with
  | none => rfl
  | some body => cases body <;> rfl

/-- A delivery of an event with a valid signature. The body names the event, so that its
id does not depend on the identifier that a body without one would be given. -/
def Delivers (ext : Externals) (eventId : String) (c : Call) : Prop :=
  ∃ rawBody signature, c = .webhook rawBody signature ∧ signature ≠ "" ∧
    signatureIsValid ext rawBody signature = .ok true ∧
    ∀ i : Uuid, ∃ event, Decodes ext rawBody i.str event eventId

theorem checks_webhook {eventId : String} {c : Call} (hc : Delivers ext eventId c) :
    (program ext c).Checks (Key.webhookEvent eventId) (fun s => c.stored ext s) := by
  obtain ⟨rawBody, signature, rfl, hne, hvalid, hdecodes⟩ := hc
  obtain ⟨_, data, hload, -⟩ := hdecodes 0
  -- the statements up to the lookup of the event
  have hhandle : handle ext rawBody signature = .draw fun i =>
      Ledger.ofExcept (parseEvent i.str data) >>= applyEvent rawBody := by
    unfold handle
    rw [if_neg hne, hvalid]
    simp only [Ledger.ofExcept, bind, pure, Prog.bind, if_true, hload]
    rfl
  change (handle ext rawBody signature >>= _).Checks _ _
  rw [hhandle]
  refine Prog.Checks.draw _ fun i => ?_
  obtain ⟨event, data', hload', hparse, hkey⟩ := hdecodes i
  obtain rfl := Option.some.inj (hload.symm.trans hload')
  dsimp only
  rw [hparse]
  change (applyEvent rawBody event >>= _).Checks _ _
  unfold applyEvent
  rw [hkey]
  refine Prog.Checks.read _ ?_ ?_
  · intro s hs
    have hsome : s.webhookEvents.find? eventId ≠ none := fun hnone =>
      hs (Option.map_eq_none_iff.mpr hnone)
    obtain ⟨e, he⟩ := Option.ne_none_iff_exists'.mp hsome
    dsimp only
    rw [he]
    rfl
  · intro s hs
    have hnone : s.webhookEvents.find? eventId = none := Option.map_eq_none_iff.mp hs
    dsimp only
    rw [hnone]
    exact ⟨.webhookEvent ⟨eventId, rawBody, .processed⟩, _, rfl, rfl⟩

end Answers

section Filed

variable {ext : Externals} {skips : Key → Prop} {a a₀ : Moment}

theorem storedReply_mono {s s' : Database} {m k : String} {payload : Payload}
    {reply : ℤ → Option ResponseBody → Except Exn Reply} {v : Reply} (ho : Older s s')
    (h : storedReply ext s m k payload reply = .ok v) :
    storedReply ext s' m k payload reply = .ok v := by
  unfold storedReply at h ⊢
  cases hr : s.idempotencyKeys.find? (m, k) with
  | none =>
    rw [hr] at h
    contradiction
  | some r =>
    rw [hr] at h
    by_cases hhash : r.requestHash = ext.hash payload
    · cases hst : r.status with
      | inProgress => simp [hhash, hst] at h
      | completed =>
        rw [completed_of_older ho hr hst]
        exact h
    · simp [hhash] at h

/-- An answer stays the same. -/
theorem stored_mono {s s' : Database} {c : Call} {v : Reply} (ho : Older s s')
    (h : c.stored ext s = .ok v) : c.stored ext s' = .ok v := by
  cases c with
  | create k req => exact storedReply_mono ho h
  | refund k id req => exact storedReply_mono ho h
  | _ => exact h

/-- A refund or a delivery. -/
def Call.inOneTransaction : Call → Prop
  | refund _ _ _ => True
  | webhook _ _ => True
  | _ => False

/-- A refund or a delivery that has written has returned with its answer. -/
theorem returned_of_reach {allowed : Moment → Atomic.Act backend Call → Prop}
    (howned : Owned ext a₀) (h₀ : ∀ pid, a₀.heads pid = none)
    (hreach : Atomic.Reach (program ext) allowed Older skips a₀ a) :
    ∀ pid h, a.heads pid = some h → h.call.inOneTransaction → Wrote h.trace →
      ∃ v, h.base = .pure v ∧ h.call.stored ext a.db = .ok v := by
  induction hreach with
  | refl =>
    intro pid h hp
    rw [h₀ pid] at hp
    contradiction
  | @tail a₁ a₂ hreach hstep ih =>
    have howned₁ := owned_of_reach howned hreach
    obtain ⟨act, hs, -⟩ := hstep
    have holder := (owned_step howned₁ hs).2
    intro pid' h' hp' hc hwrote
    have hold : ∀ h', a₁.heads pid' = some h' → h'.call.inOneTransaction → Wrote h'.trace →
        ∃ v, h'.base = .pure v ∧ h'.call.stored ext a₂.db = .ok v := by
      intro h' hp' hc hwrote
      obtain ⟨v, hv, hstored⟩ := ih pid' h' hp' hc hwrote
      exact ⟨v, hv, stored_mono holder hstored⟩
    cases hs with
    | start pid c hp =>
      rcases Atomic.heads_put hp' with ⟨-, rfl⟩ | ⟨-, hp'⟩
      · exact absurd hwrote not_wrote_nil
      · exact hold h' hp' hc hwrote
    | call pid h q next ans L hp ho hr =>
      rcases Atomic.heads_put hp' with ⟨-, rfl⟩ | ⟨-, hp'⟩
      · obtain ⟨k, req, p, ws, hcreate, -⟩ := calling_of_stage (howned₁.stage pid h hp) hr
        change h.call.inOneTransaction at hc
        rw [hcreate] at hc
        exact hc.elim
      · exact hold h' hp' hc hwrote
    | commit pid h next L hp ho hr =>
      rcases Atomic.heads_put (a := a₁) hp' with ⟨-, rfl⟩ | ⟨-, hp'⟩
      · have hcom := committed_of_stage (howned₁.stage pid h hp) hr
        change h.call.inOneTransaction at hc
        change Wrote (h.trace ++ [.committed L.flushed]) at hwrote
        change ∃ v, next = .pure v ∧ h.call.stored ext (view a₁.db L.flushed) = .ok v
        cases hcom with
        | refundReplayed k id req hcall ht hr =>
          rw [ht, hr.1] at hwrote
          rcases wrote_append_committed.mp hwrote with hwrote | hne
          · exact absurd hwrote not_wrote_nil
          · exact absurd rfl hne
        | refunded k id req p r txn event hcall ht hr =>
          refine ⟨_, hr.next, ?_⟩
          obtain ⟨s₁, -, hview⟩ := hr.effect
          have hfind : (view a₁.db L.flushed).idempotencyKeys.find? ("merchant_refund", k) =
              some (completed r.id 201 (.refund (refundReply p r))
                (inProgress "merchant_refund" k (ext.hash (.refund id req.amount)))) := by
            refine (congrArg (fun s => s.idempotencyKeys.find? ("merchant_refund", k)) hview).trans ?_
            exact Table.find?_put_self _ _
          rw [hcall]
          simp [Call.stored, storedReply, hfind, completed, inProgress, refundReplyOf,
            refundResponse, codeOr200, Except.map]
        | webhook rawBody signature event eventId i hcall ht hw hpend =>
          refine ⟨_, hw.next, ?_⟩
          rw [hcall]
          rfl
        | replayed k req r resp hcall | opened k req p txn event hcall
        | resolved k req p p' ws result hcall | expired timeoutMinutes ps hcall
        | posted type referenceId postings txn hcall | drained batchSize evs t hcall =>
          rw [hcall] at hc
          exact hc.elim
      · exact hold h' hp' hc hwrote
    | fail pid h e hp ho hr hv he =>
      rcases Atomic.heads_put hp' with ⟨-, rfl⟩ | ⟨-, hp'⟩
      · have htrace : (h.resume a₁.db (.raise e) []).trace = h.trace := List.append_nil _
        obtain ⟨v, hbase, -⟩ := ih pid h hp hc (htrace ▸ hwrote)
        exact absurd hbase (hv v)
      · exact hold h' hp' hc hwrote

/-- A call that has written finds its answer in the store if it has returned; otherwise
its duplicates are told to come back. -/
theorem stored_of_wrote (hinv : Owned ext a)
    (hreturned : ∀ pid h, a.heads pid = some h → h.call.inOneTransaction → Wrote h.trace →
      ∃ v, h.base = .pure v ∧ h.call.stored ext a.db = .ok v)
    {pid : ℕ} {h : Head} (hp : a.heads pid = some h) (hc : h.call.isCreate ∨ h.call.inOneTransaction)
    (hwrote : Wrote h.trace) :
    (∃ v, h.base = .pure v ∧ h.call.stored ext a.db = .ok v) ∨
      (∀ v, h.base ≠ .pure v) ∧ ∃ key payload, h.call.claim? = some (key, payload) ∧
        h.call.stored ext a.db = .error (.idempotencyConflict key.2) := by
  rcases hc with hcreate | hone
  · cases hcall : h.call with
    | create k req =>
      obtain ⟨p, hopened, hwhere⟩ := opened_of_wrote hinv hp hcall hwrote
      have hholds := hinv.holds pid h k req p hp hcall hopened
      rcases hwhere with ⟨howned, -, hne⟩ | ⟨howned, -⟩
      · obtain ⟨-, hr, -⟩ := hholds.unresolved howned
        refine Or.inr ⟨hne, (req.merchantId, k), .create req, rfl, ?_⟩
        simp [Call.stored, storedReply, hr, inProgress]
      · obtain ⟨resp, hbase, -, hr⟩ := hholds.resolved howned
        refine Or.inl ⟨_, hbase, ?_⟩
        simp [Call.stored, storedReply, hr, completed, inProgress, paymentReply, paymentResponse,
          codeOr200, Except.map]
    | _ =>
      rw [hcall] at hcreate
      exact hcreate.elim
  · exact Or.inl (hreturned pid h hp hone hwrote)

end Filed

section Claim

variable {ext : Externals} {quiet : Oracle backend → Prop} {D : Call → Prop} {K : Key}
  {db : Database} {spent : List Uuid} {σ : State}

/-- The duplicates of one request, and the key of the row for which they race. -/
inductive Duplicates (ext : Externals) : Key → (Call → Prop) → Prop
  | create (k : String) (req : CreatePaymentRequest) :
      Duplicates ext (.idempotencyRecord req.merchantId k) (· = .create k req)
  | refund (k : String) (id : Uuid) (req : RefundRequest) :
      Duplicates ext (.idempotencyRecord "merchant_refund" k) (· = .refund k id req)
  | webhook (eventId : String) : Duplicates ext (.webhookEvent eventId) (Delivers ext eventId)

/-- Sent alone, the call does not fail. -/
def SucceedsAlone (ext : Externals) (quiet : Oracle backend → Prop) (db : Database)
    (spent : List Uuid) (c : Call) : Prop :=
  ∀ pid p, System.RanAlone (program ext) quiet db spent pid p → p.call = c → ¬ p.Raised

/-- Every call that has returned gave the stored answer, every call that has failed was
told to come back, and only one has written. Deliveries do not fail. -/
structure Documented (ext : Externals) (σ : State) : Prop where
  returned : ∀ pid p v, σ.procs pid = some p → p.prog = .pure v → p.call.stored ext σ.db = .ok v
  raised : ∀ pid p e, σ.procs pid = some p → p.prog = .raise e →
    ∃ key payload, p.call.claim? = some (key, payload) ∧ e = .idempotencyConflict key.2
  once : ∀ pid pid' p p', σ.procs pid = some p → σ.procs pid' = some p' → Wrote p.trace →
    Wrote p'.trace → pid = pid'

theorem Duplicates.checks (hd : Duplicates ext K D) {c : Call} (hc : D c) :
    (program ext c).Checks K (fun s => c.stored ext s) := by
  cases hd with
  | create k req =>
    subst hc
    exact checks_create k req
  | refund k id req =>
    subst hc
    exact checks_refund k id req
  | webhook eventId => exact checks_webhook hc

theorem Duplicates.waits (hd : Duplicates ext K D) {c : Call} (hc : D c) : (program ext c).Waits := by
  apply waits_program
  rintro n rfl
  cases hd with
  | webhook eventId =>
    obtain ⟨_, _, hc, -⟩ := hc
    contradiction
  | _ => contradiction

theorem idle_iff {p : Process backend Call Reply} : System.Idle p ↔ ¬ Wrote p.trace := by
  simp [System.Idle, Wrote]

/-- What is known at the end of a race. -/
structure Raced (ext : Externals) (D : Call → Prop) (db : Database) (σ : State) : Prop where
  filed : Filed ext db σ
  running : Running ext D anyKey σ
  returned : ∀ pid h, σ.toAtomic.heads pid = some h → h.call.inOneTransaction → Wrote h.trace →
    ∃ v, h.base = .pure v ∧ h.call.stored ext σ.db = .ok v

theorem raced_of_run {ok : State → Label backend Call → Prop}
    (hok : ∀ σ l, ok σ l → System.Contends D quiet σ l)
    (h : System.Run (program ext) ok (System.initial db spent) σ) : Raced ext D db σ := by
  have hstarts : ∀ σ l, ok σ l → Starts D σ l := by
    intro σ l h
    cases l with
    | start pid c => exact (hok σ _ h).1 pid c rfl
    | _ => trivial
  have hrunning₀ : Running ext D anyKey (System.initial db spent) := running_initial db spent
  obtain ⟨hrunning, hreach⟩ := reach_of_service (fun _ _ h => h)
    (fun σ l act σ' hl hs => startsAct_of_stepped (hstarts σ l hl) hs) skipsOnly_anyKey hrunning₀ h
  refine ⟨filed_of_run (System.Run.mono h fun σ l _ => ?_), hrunning,
    returned_of_reach hrunning₀.owned (fun _ => rfl) hreach⟩
  cases l <;> trivial

theorem Duplicates.one (hd : Duplicates ext K D) {c : Call} (hc : D c) :
    c.isCreate ∨ c.inOneTransaction := by
  cases hd with
  | create k req =>
    subst hc
    exact Or.inl trivial
  | refund k id req =>
    subst hc
    exact Or.inr trivial
  | webhook eventId =>
    obtain ⟨rawBody, signature, rfl, -⟩ := hc
    exact Or.inr trivial

/-- A record of the race is that of a call of the race. -/
theorem Raced.stored_of_record (hrace : Raced ext D db σ) {c : Call} {key : String × String}
    {payload : Payload} {r : IdempotencyRecord} (hD : ∀ c', D c' → c' = c)
    (hc : c.claim? = some (key, payload)) (hone : c.isCreate ∨ c.inOneTransaction)
    (hnone : db.idempotencyKeys.find? key = none) (hr : σ.db.idempotencyKeys.find? key = some r) :
    (∃ v, c.stored ext σ.db = .ok v) ∨ c.stored ext σ.db = .error (.idempotencyConflict key.2) := by
  rcases hrace.filed.recorded hr with hdb | ⟨pid, p, payload', hp, -, hwrote⟩
  · rw [hnone] at hdb
    contradiction
  · have hhead := System.toAtomic_heads hp
    obtain rfl := hD p.call (hrace.running.calls pid _ hhead)
    rcases stored_of_wrote hrace.filed.owned hrace.returned hhead hone hwrote with
      ⟨v, -, hv⟩ | ⟨-, key', payload'', hc', hconflict⟩
    · exact Or.inl ⟨v, hv⟩
    · obtain ⟨rfl, -⟩ := Prod.mk.inj (Option.some.inj (hc.symm.trans hc'))
      exact Or.inr hconflict

/-- What a call of the race is answered that finds the row. -/
theorem Raced.stored_of_seen (hrace : Raced ext D db σ) (hd : Duplicates ext K D)
    (hnone : db.get K = none) (hsome : σ.db.get K ≠ none) {c : Call} (hc : D c) :
    (∃ v, c.stored ext σ.db = .ok v) ∨ ∃ key payload, c.claim? = some (key, payload) ∧
      c.stored ext σ.db = .error (.idempotencyConflict key.2) := by
  have hrecord : ∀ key : String × String, K = .idempotencyRecord key.1 key.2 →
      db.idempotencyKeys.find? key = none ∧ ∃ r, σ.db.idempotencyKeys.find? key = some r := by
    rintro key rfl
    refine ⟨Option.map_eq_none_iff.mp hnone, Option.ne_none_iff_exists'.mp fun h => hsome ?_⟩
    exact Option.map_eq_none_iff.mpr h
  cases hd with
  | create k req =>
    obtain ⟨hfresh, r, hr⟩ := hrecord (req.merchantId, k) rfl
    subst hc
    exact (hrace.stored_of_record (fun _ h => h) rfl (Or.inl trivial) hfresh hr).imp_right
      fun h => ⟨_, _, rfl, h⟩
  | refund k id req =>
    obtain ⟨hfresh, r, hr⟩ := hrecord ("merchant_refund", k) rfl
    subst hc
    exact (hrace.stored_of_record (fun _ h => h) rfl (Or.inr trivial) hfresh hr).imp_right
      fun h => ⟨_, _, rfl, h⟩
  | webhook eventId =>
    obtain ⟨rawBody, signature, rfl, -⟩ := hc
    exact Or.inl ⟨.handled, rfl⟩

theorem Raced.older {ok : State → Label backend Call → Prop} {σ' : State}
    (hrace : Raced ext D db σ) (hok : ∀ σ l, ok σ l → System.Contends D quiet σ l)
    (h : System.Run (program ext) ok σ σ') : Older σ.db σ'.db := by
  have hstarts : ∀ σ l, ok σ l → Starts D σ l := by
    intro σ l h
    cases l with
    | start pid c => exact (hok σ _ h).1 pid c rfl
    | _ => trivial
  obtain ⟨-, hreach⟩ := reach_of_service (fun _ _ h => h)
    (fun σ l act σ' hl hs => startsAct_of_stepped (hstarts σ l hl) hs) skipsOnly_anyKey hrace.running h
  exact older_of_reach hrace.running.owned hreach

theorem Raced.fresh_of_pure (hrace : Raced ext D db σ) {pid : ℕ} {p : Process backend Call Reply}
    {v : Reply} (hp : σ.procs pid = some p) (hv : p.prog = .pure v) : p.session = .fresh backend := by
  have hreplay := (hrace.running.sound.replayed pid p hp).replay
  have hrun := runs_of_replay (o := .value v p.session) hreplay (by rw [hv]; rfl)
  rw [base_of_pure hrace.running hp hv] at hrun
  exact (Stop.value.inj hrun).2

section Answered

variable (hd : Duplicates ext K D)
  (h : System.Run (program ext) (System.Contest D quiet K) (System.initial db spent) σ)

include hd h

/-- A call that has lost the race ends as the documentation says. -/
theorem answer_of_lost {pid : ℕ} {p : Process backend Call Reply} {x : Except Exn Reply}
    (hp : σ.procs pid = some p) (hx : p.prog = .ofResult x)
    (hlost : System.Lost K (fun c s => c.stored ext s) (System.SeenIn (program ext)
      (System.Contest D quiet K) K (System.initial db spent) σ) p) :
    ∃ s, Older s σ.db ∧ p.call.stored ext s = x ∧ (db.get K = none →
      (∃ v, x = .ok v) ∨ ∃ key payload, p.call.claim? = some (key, payload) ∧
        x = .error (.idempotencyConflict key.2)) := by
  have hok : ∀ (σ : State) l, System.Contest D quiet K σ l → System.Contends D quiet σ l :=
    fun _ _ h => h.1
  have hrace := raced_of_run hok h
  rcases hlost.stands with hlosing | ⟨s, ⟨t, h₁, h₂, rfl, hsome⟩, hprog⟩
  · rw [hx] at hlosing
    exact absurd hlosing (System.not_losing_ended (B := backend) x)
  · have hrace₁ := raced_of_run hok h₁
    have hstored : p.call.stored ext t.db = x :=
      Prog.ofResult_injective (B := backend) (hprog.symm.trans hx)
    refine ⟨t.db, hrace₁.older hok h₂, hstored, fun hnone => ?_⟩
    rw [← hstored]
    exact hrace₁.stored_of_seen hd hnone hsome (hrace.running.calls pid _ (System.toAtomic_heads hp))

theorem documented_of_contest
    (halone : ∀ pid p, σ.procs pid = some p →
      System.RanAlone (program ext) quiet db spent pid p → ¬ p.Raised) : Documented ext σ := by
  have hrace := raced_of_run (fun _ _ h => h.1) h
  have hD : ∀ {pid p}, σ.procs pid = some p → D p.call := fun {pid p} hp =>
    hrace.running.calls pid _ (System.toAtomic_heads hp)
  have hchecks : ∀ c, D c → (program ext c).Checks K (fun s => c.stored ext s) :=
    fun _ hc => hd.checks hc
  obtain ⟨hstands, honce⟩ := System.race_of_run (B := backend) hchecks (fun _ hc => hd.waits hc)
    (fun _ => rfl) h
  refine ⟨?_, ?_, ?_⟩
  · intro pid p v hp hv
    have hlost : System.Lost K (fun c s => c.stored ext s) (System.SeenIn (program ext)
        (System.Contest D quiet K) K (System.initial db spent) σ) p →
        p.call.stored ext σ.db = .ok v := by
      intro hlost
      obtain ⟨s, hs, hstored, -⟩ := answer_of_lost hd h hp (x := .ok v) hv hlost
      exact stored_mono hs hstored
    rcases hstands pid p hp with ⟨-, hidle⟩ | ⟨-, hl⟩
    · by_cases hwrote : Wrote p.trace
      · have hbase := base_of_pure hrace.running hp hv
        rcases stored_of_wrote hrace.running.owned hrace.returned (System.toAtomic_heads hp)
          (hd.one (hD hp)) hwrote with ⟨v', hbase', hstored⟩ | ⟨hne, -⟩
        · rw [hbase] at hbase'
          cases hbase'
          exact hstored
        · exact absurd hbase (hne v)
      · rcases hidle (idle_iff.mpr hwrote) with ⟨e, he⟩ | ⟨w, hw, -⟩ | hl
        · rw [hv] at he
          contradiction
        · rw [hrace.fresh_of_pure hp hv] at hw
          contradiction
        · exact hlost hl
    · exact hlost hl
  · intro pid p e hp he
    rcases hstands pid p hp with ⟨hran, -⟩ | ⟨hnone, hlost⟩
    · exact absurd ⟨e, he⟩ (halone pid p hp hran)
    · obtain ⟨s, -, -, hanswer⟩ := answer_of_lost hd h hp (x := .error e) he hlost
      rcases hanswer hnone with ⟨v, hv⟩ | ⟨key, payload, hc, he⟩
      · contradiction
      · exact ⟨key, payload, hc, Except.error.inj he⟩
  · intro pid pid' p p' hp hp' hwrote hwrote'
    exact honce pid pid' p p' hp hp' (fun hidle => idle_iff.mp hidle hwrote)
      fun hidle => idle_iff.mp hidle hwrote'

end Answered

section Sample

theorem delivers_sample : Delivers sampleExternals "ev" (.webhook "ev" "sig") := by
  refine ⟨"ev", "sig", rfl, by simp, by decide, ?_⟩
  intro i
  exact ⟨⟨.str "ev", .str "payment.captured", .str "psp"⟩, _, rfl, rfl, rfl⟩

/-- `n` statements of process `pid`, with the identifiers from `first` on. -/
def deliverySteps (pid first n : ℕ) : List (Label backend Call) :=
  sampleSteps pid first n (.error "") 0

/-- Two deliveries of one event that take turns. -/
def twoDeliveries (a b c d : ℕ) : List (Label backend Call) :=
  .start 0 (.webhook "ev" "sig") :: .start 1 (.webhook "ev" "sig") ::
    (deliverySteps 0 10 a ++ deliverySteps 1 20 b ++ deliverySteps 0 30 c ++ deliverySteps 1 40 d)

theorem mem_twoDeliveries {a b c d : ℕ} {l : Label backend Call} (hl : l ∈ twoDeliveries a b c d) :
    (l.pid = 0 ∨ l.pid = 1) ∧
      ∀ σ : State, System.Contends (Delivers sampleExternals "ev") (fun _ => True) σ l := by
  simp only [twoDeliveries, deliverySteps, sampleSteps, List.mem_cons, List.mem_append,
    List.mem_map] at hl
  rcases hl with rfl | rfl | ((⟨i, -, rfl⟩ | ⟨i, -, rfl⟩) | ⟨i, -, rfl⟩) | ⟨i, -, rfl⟩ <;>
    simp [Label.pid, System.Contends, Label.isCancel, delivers_sample]

/-- How two deliveries have ended, and how many events the store holds. -/
def deliveryEnds (σ : State) : Option (Option Reply × Option Exn) × Option (Option Reply × Option Exn) × ℕ :=
  ((σ.procs 0).map fun p => (p.prog.value?, p.prog.error?),
    (σ.procs 1).map fun p => (p.prog.value?, p.prog.error?), σ.db.webhookEvents.rows.length)

end Sample

end Claim

end ApexPayments.Service
