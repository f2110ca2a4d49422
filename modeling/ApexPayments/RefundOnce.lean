import ApexPayments.Duplicates
import ApexPayments.Publishing
import ApexPayments.RowLocking.Answers

/-!
Refunds under an idempotency key. The refund rows are those of the calls that have written, one
each, and one call at most writes under a key. What such a call has returned is the answer to
every other call with the key.
-/
namespace ApexPayments.Service

open Domain Store Ledger Payments Webhooks Relay RowLocking

section Rows

variable {F : Frame backend} {ext : Externals} {h : Head} {next : Program Reply}
  {L : Session backend}

/-- The response to the call that has carried the refund out. -/
def receipt (r : Refund) : RefundResponse := ⟨r.id, r.paymentId, r.amount, r.status, r.createdAt⟩

theorem receipt_injective : Function.Injective receipt := by
  intro r r' heq
  obtain ⟨id, paymentId, amount, status, createdAt⟩ := r
  obtain ⟨id', paymentId', amount', status', createdAt'⟩ := r'
  cases heq
  rfl

theorem refunds_of_reversedAll {ps : List Payment} {s s' : Database} {used used' : List Uuid}
    (h : ReversedAll ps s used s' used') : s'.refunds = s.refunds := by
  induction h with
  | nil => rfl
  | cons p ps s used ids s₁ s₂ used₂ found moved rest ih => exact ih.trans moved.same.refunds

theorem refunds_of_applied {event : Webhooks.Event} {s : Database} {used : List Uuid}
    (h : Applied F event s used L) : (F.working L).refunds = s.refunds := by
  cases h with
  | unreferenced hfalsy hwork hused => rw [hwork]
  | looked reference store ps href hne hlook hsnap htrans =>
    generalize F.working L = t at htrans ⊢
    generalize usedBy F L = used' at htrans
    cases htrans with
    | idle hidle => rfl
    | captured p ids s' hps hst hkind hmoved => exact hmoved.same.refunds
    | failed p ids s' hps hst hkind hmoved => exact hmoved.same.refunds

/-- What a commit does to the refunds. -/
inductive RefundEffect (h : Head) (next : Program Reply) (ws : List (Write backend))
    (s s' : Database) : Prop
  | nothing (hsame : s'.refunds = s.refunds)
      (hcall : ∀ k id req, h.call = .refund k id req → ws = [])
  | carried (k : String) (r : Refund) (req : RefundRequest) (hc : h.call = .refund k r.paymentId req)
      (hamount : r.amount = req.amount) (ht : h.trace = []) (hws : ws ≠ [])
      (hfresh : s.refunds.find? r.id = none) (hr : s'.refunds = s.refunds.put r)
      (hnext : next = pure (.refund 201 (receipt r)))

theorem refundEffect_of_committed (hc : Committed ext F h next L) :
    RefundEffect h next L.flushed F.hi (view F.hi L.flushed) := by
  cases hc with
  | replayed k req r resp hc ht hr =>
    rw [hr.flushed]
    exact .nothing rfl fun _ _ _ _ => rfl
  | opened k req p txn event hc ht ho =>
    have hsame : (view F.hi L.flushed).refunds = F.hi.refunds := ho.effect.same.refunds
    refine .nothing hsame fun k' id' req' hcall => ?_
    rw [hc] at hcall
    contradiction
  | resolved k req p p' ws result hc hws ht hr =>
    obtain ⟨ids, s₁, hmoved, -, heffect⟩ := hr.effect
    have hsame : s₁.refunds = F.hi.refunds := hmoved.same.refunds
    refine .nothing ?_ fun k' id' req' hcall => ?_
    · rcases heffect with ⟨s, -, -, hview⟩ | ⟨r, -, hview⟩
      · rw [hview]
        exact hsame
      · rw [hview]
        exact hsame
    · rw [hc] at hcall
      contradiction
  | refundReplayed k id req hc ht hr =>
    rw [hr.1]
    exact .nothing rfl fun _ _ _ _ => rfl
  | refunded k id req p r txn event hc ht hr =>
    obtain ⟨createdAt, hmade⟩ := hr.refund
    obtain ⟨s₁, htrans, hview⟩ := hr.effect
    have hid : r.paymentId = id := by
      have hkey : p.id = id := Table.key_of_find? hr.found
      rw [hmade]
      exact hkey
    have hreply : refundReply p r = receipt r := by
      rw [hmade]
      rfl
    have hrefunds : (view F.hi L.flushed).refunds = F.hi.refunds.put r := by
      rw [hview]
      exact htrans.same.refunds
    refine .carried k r req (hid ▸ hc) (by rw [hmade]) ht ?_ hr.refund_fresh hrefunds (hreply ▸ hr.next)
    intro hws
    have hfind : (view F.hi L.flushed).refunds.find? r.id = some r := by
      rw [hrefunds]
      exact Table.find?_put_self _ r
    rw [hws] at hfind
    exact absurd (hfind.symm.trans hr.refund_fresh) (Option.some_ne_none r)
  | webhook rawBody signature event eventId i hc ht hw hp =>
    refine .nothing ?_ fun k' id' req' hcall => ?_
    · rcases hw.effect with hfl | hrec
      · rw [hfl]
        rfl
      · rw [← Frame.working_of_pending L hp]
        have hsame := refunds_of_applied hrec.applied
        exact hsame
    · rw [hc] at hcall
      contradiction
  | expired timeoutMinutes ps hc ht he =>
    refine .nothing (refunds_of_reversedAll he.reversed) fun k' id' req' hcall => ?_
    rw [hc] at hcall
    contradiction
  | posted type referenceId postings txn hc ht hp =>
    have helse := hp.posted.elsewhere
    unfold SameElsewhere at helse
    refine .nothing (by rw [helse]) fun k' id' req' hcall => ?_
    rw [hc] at hcall
    contradiction
  | drained batchSize evs t hc ht hd =>
    obtain ⟨s, order, hdrawn⟩ := hd.select
    refine .nothing ?_ fun k' id' req' hcall => ?_
    · rw [hd.flushed]
      exact publishAll_induction (R := fun s s' => s'.refunds = s.refunds)
        (fun _ => rfl) (fun _ _ _ h h' => h'.trans h) t (fun _ _ _ _ => rfl) hdrawn.nodup hdrawn.current
    · rw [hc] at hcall
      contradiction

end Rows

section Filing

variable {ext : Externals} {skips : Key → Prop} {s₀ : Database} {a a' : Moment}

/-- The call has carried out the refund. -/
structure CarriesOut (h : Head) (k : String) (r : Refund) : Prop where
  call : ∃ req, h.call = .refund k r.paymentId req ∧ r.amount = req.amount
  wrote : Wrote h.trace
  returned : h.base = .pure (.refund 201 (receipt r))

/-- The refunds that are not those of `s₀` are those of the calls that have written. -/
structure RefundsFiled (s₀ : Database) (a : Moment) : Prop where
  made : ∀ pid h k id req, a.heads pid = some h → h.call = .refund k id req → Wrote h.trace →
    ∃ r, CarriesOut h k r ∧ a.db.refunds.find? r.id = some r ∧ s₀.refunds.find? r.id = none
  maker : ∀ r ∈ a.db.refunds.rows, r ∈ s₀.refunds.rows ∨
    ∃ pid h k, a.heads pid = some h ∧ CarriesOut h k r
  known : ∀ r ∈ s₀.refunds.rows, r ∈ a.db.refunds.rows
  once : ∀ pid pid' h h' k k' r r', a.heads pid = some h → a.heads pid' = some h' →
    CarriesOut h k r → CarriesOut h' k' r' → r.id = r'.id → pid = pid'

theorem CarriesOut.unique {h : Head} {k k' : String} {r r' : Refund} (hr : CarriesOut h k r)
    (hr' : CarriesOut h k' r') : r = r' := by
  have hreply := Prog.pure.inj (hr.returned.symm.trans hr'.returned)
  exact receipt_injective (Reply.refund.inj hreply).2

/-- A call moves on to `h'` without carrying out a refund. -/
theorem RefundsFiled.update (hf : RefundsFiled s₀ a) {pid : ℕ} {h' : Head}
    (hheads : a'.heads = Function.update a.heads pid (some h'))
    (hsame : a'.db.refunds = a.db.refunds)
    (hold : ∀ h, a.heads pid = some h → ∀ v, h.base ≠ .pure v)
    (hidle : ∀ k id req, h'.call = .refund k id req → ¬ Wrote h'.trace) : RefundsFiled s₀ a' := by
  have hother : ∀ pid', pid' ≠ pid → a'.heads pid' = a.heads pid' := fun pid' hne => by
    rw [hheads, Function.update_of_ne hne]
  have hcarries : ∀ pid' h k r, a'.heads pid' = some h → CarriesOut h k r →
      a.heads pid' = some h := by
    intro pid' h k r hp hr
    by_cases hne : pid' = pid
    · subst hne
      rw [hheads, Function.update_self] at hp
      obtain rfl := Option.some.inj hp
      obtain ⟨req, hcall, -⟩ := hr.call
      exact absurd hr.wrote (hidle k _ req hcall)
    · rw [← hother pid' hne]
      exact hp
  refine ⟨?_, ?_, ?_, ?_⟩
  · intro pid' h k id req hp hcall hwrote
    rw [hsame]
    by_cases hne : pid' = pid
    · subst hne
      rw [hheads, Function.update_self] at hp
      obtain rfl := Option.some.inj hp
      exact absurd hwrote (hidle k id req hcall)
    · exact hf.made pid' h k id req ((hother pid' hne).symm.trans hp) hcall hwrote
  · intro r hr
    rw [hsame] at hr
    rcases hf.maker r hr with hr | ⟨pid', h, k, hp, hcarries⟩
    · exact Or.inl hr
    · refine Or.inr ⟨pid', h, k, (hother pid' ?_).trans hp, hcarries⟩
      intro heq
      subst heq
      exact hold h hp _ hcarries.returned
  · rw [hsame]
    exact hf.known
  · intro pid₁ pid₂ h₁ h₂ k₁ k₂ r₁ r₂ hp₁ hp₂ hr₁ hr₂
    exact hf.once pid₁ pid₂ h₁ h₂ k₁ k₂ r₁ r₂ (hcarries pid₁ h₁ k₁ r₁ hp₁ hr₁)
      (hcarries pid₂ h₂ k₂ r₂ hp₂ hr₂) hr₁ hr₂

/-- A call moves on to `h'` and has carried out the refund `r`. -/
theorem RefundsFiled.carried (hf : RefundsFiled s₀ a) {pid : ℕ} {h' : Head} {k : String} {r : Refund}
    (hheads : a'.heads = Function.update a.heads pid (some h'))
    (hfresh : a.db.refunds.find? r.id = none) (hput : a'.db.refunds = a.db.refunds.put r)
    (hold : ∀ h, a.heads pid = some h → ∀ v, h.base ≠ .pure v) (hr : CarriesOut h' k r) :
    RefundsFiled s₀ a' := by
  have hself : a'.heads pid = some h' := by rw [hheads, Function.update_self]
  have hother : ∀ pid', pid' ≠ pid → a'.heads pid' = a.heads pid' := fun pid' hne => by
    rw [hheads, Function.update_of_ne hne]
  have hrows : a'.db.refunds.rows = a.db.refunds.rows ++ [r] := by
    rw [hput]
    exact Table.rows_put_new _ r hfresh
  -- the refunds carried out before have other ids
  have hnew : ∀ r' ∈ a.db.refunds.rows, r'.id ≠ r.id := (Table.find?_eq_none_iff _ _).mp hfresh
  have hearlier : ∀ pid' h k' r', pid' ≠ pid → a'.heads pid' = some h → CarriesOut h k' r' →
      r'.id ≠ r.id := by
    intro pid' h k' r' hne hp hr'
    rw [hother pid' hne] at hp
    obtain ⟨req, hcall, -⟩ := hr'.call
    obtain ⟨r₁, hr₁, hfind, -⟩ := hf.made pid' h k' _ req hp hcall hr'.wrote
    obtain rfl := hr'.unique hr₁
    exact hnew r' (Table.mem_of_find? hfind)
  refine ⟨?_, ?_, ?_, ?_⟩
  · intro pid' h k' id req hp hcall hwrote
    by_cases hne : pid' = pid
    · subst hne
      obtain rfl := Option.some.inj (hself.symm.trans hp)
      obtain ⟨req', hcall', -⟩ := hr.call
      have hkey := hcall.symm.trans hcall'
      cases hkey
      refine ⟨r, hr, ?_, ?_⟩
      · rw [hput]
        exact Table.find?_put_self _ r
      · exact (Table.find?_eq_none_iff _ _).mpr fun r' hr' => hnew r' (hf.known r' hr')
    · rw [hother pid' hne] at hp
      obtain ⟨r', hr', hfind, hbefore⟩ := hf.made pid' h k' id req hp hcall hwrote
      refine ⟨r', hr', ?_, hbefore⟩
      rw [hput]
      exact (Table.find?_put_of_ne _ r r'.id (hnew r' (Table.mem_of_find? hfind))).trans hfind
  · intro r' hr'
    rw [hrows] at hr'
    rcases List.mem_append.mp hr' with hr' | hr'
    · rcases hf.maker r' hr' with hr' | ⟨pid', h, k', hp, hcarries⟩
      · exact Or.inl hr'
      · refine Or.inr ⟨pid', h, k', (hother pid' ?_).trans hp, hcarries⟩
        intro heq
        subst heq
        exact hold h hp _ hcarries.returned
    · rw [List.mem_singleton.mp hr']
      exact Or.inr ⟨pid, h', k, hself, hr⟩
  · intro r' hr'
    rw [hrows]
    exact List.mem_append_left _ (hf.known r' hr')
  · intro pid₁ pid₂ h₁ h₂ k₁ k₂ r₁ r₂ hp₁ hp₂ hr₁ hr₂ hid
    by_cases hne₁ : pid₁ = pid
    · by_cases hne₂ : pid₂ = pid
      · exact hne₁.trans hne₂.symm
      · subst hne₁
        obtain rfl := Option.some.inj (hself.symm.trans hp₁)
        obtain rfl := hr.unique hr₁
        exact absurd hid.symm (hearlier pid₂ h₂ k₂ r₂ hne₂ hp₂ hr₂)
    · by_cases hne₂ : pid₂ = pid
      · subst hne₂
        obtain rfl := Option.some.inj (hself.symm.trans hp₂)
        obtain rfl := hr.unique hr₂
        exact absurd hid (hearlier pid₁ h₁ k₁ r₁ hne₁ hp₁ hr₁)
      · exact hf.once pid₁ pid₂ h₁ h₂ k₁ k₂ r₁ r₂ ((hother pid₁ hne₁).symm.trans hp₁)
          ((hother pid₂ hne₂).symm.trans hp₂) hr₁ hr₂ hid

theorem refundsFiled_step (hinv : Owned ext a) (hf : RefundsFiled s₀ a)
    {act : Atomic.Act backend Call} (hs : Atomic.Step (program ext) Older skips a act a') :
    RefundsFiled s₀ a' := by
  have hbase : ∀ {pid : ℕ} {h : Head}, a.heads pid = some h → (∀ v, h.base ≠ .pure v) →
      ∀ h₁, a.heads pid = some h₁ → ∀ v, h₁.base ≠ .pure v := by
    intro pid h hp hv h₁ hp₁
    obtain rfl := Option.some.inj (hp.symm.trans hp₁)
    exact hv
  cases hs with
  | start pid c hp =>
    refine hf.update rfl rfl (fun h hh => ?_) fun _ _ _ _ => not_wrote_nil
    rw [hp] at hh
    contradiction
  | call pid h q next ans L hp ho hr =>
    obtain ⟨k, req, p, ws, hcreate, hafter, -⟩ := calling_of_stage (hinv.stage pid h hp) hr
    refine hf.update rfl rfl (hbase hp fun v hv => ?_) fun k' id req' hcall => ?_
    · rw [hv] at hr
      contradiction
    · exact absurd (hcreate.symm.trans hcall) (by simp)
  | commit pid h next L hp ho hr =>
    have hv : ∀ v, h.base ≠ .pure v := by
      intro v hv
      rw [hv] at hr
      contradiction
    cases refundEffect_of_committed (committed_of_stage (hinv.stage pid h hp) hr) with
    | nothing hsame hcall =>
      refine hf.update rfl hsame (hbase hp hv) fun k id req hrefund hwrote => ?_
      rcases wrote_append_committed.mp hwrote with hwrote | hne
      · obtain ⟨r, hr, -⟩ := hf.made pid h k id req hp hrefund hwrote
        exact hv _ hr.returned
      · exact hne (hcall k id req hrefund)
    | carried k r req hc hamount ht hws hfresh hrefunds hnext =>
      exact hf.carried rfl hfresh hrefunds (hbase hp hv)
        ⟨⟨req, hc, hamount⟩, wrote_append_committed.mpr (Or.inr hws), hnext⟩
  | fail pid h e hp ho hr hv he =>
    have htrace : (h.resume a.db (.raise e) []).trace = h.trace := List.append_nil _
    refine hf.update rfl rfl (hbase hp hv) fun k id req hrefund hwrote => ?_
    obtain ⟨r, hr, -⟩ := hf.made pid h k id req hp hrefund (htrace ▸ hwrote)
    exact hv _ hr.returned

theorem refundsFiled_of_reach {allowed : Moment → Atomic.Act backend Call → Prop} {a₀ : Moment}
    (howned : Owned ext a₀) (h₀ : ∀ pid, a₀.heads pid = none)
    (hreach : Atomic.Reach (program ext) allowed Older skips a₀ a) : RefundsFiled a₀.db a := by
  induction hreach with
  | refl =>
    refine ⟨?_, fun _ hr => Or.inl hr, fun _ hr => hr, ?_⟩
    · intro pid h k id req hp
      rw [h₀ pid] at hp
      contradiction
    · intro pid pid' h h' k k' r r' hp
      rw [h₀ pid] at hp
      contradiction
  | tail hreach hstep ih =>
    obtain ⟨act, hs, -⟩ := hstep
    exact refundsFiled_step (owned_of_reach howned hreach) ih hs

end Filing

section Replies

variable {ext : Externals} {skips : Key → Prop} {s s' : Database} {a a₀ : Moment} {c : Call}
  {key : String × String} {payload : Payload} {v : Reply}

theorem checks_of_claim (hc : c.claim? = some (key, payload)) :
    (program ext c).Checks (Key.idempotencyRecord key.1 key.2) (fun s => c.stored ext s) := by
  cases c with
  | create k req =>
    cases hc
    exact checks_create k req
  | refund k id req =>
    cases hc
    exact checks_refund k id req
  | _ => contradiction

theorem get_record_iff : backend.get s (Key.idempotencyRecord key.1 key.2) = none ↔
    s.idempotencyKeys.find? key = none := Option.map_eq_none_iff

/-- How a claiming call can stop that has committed nothing yet. -/
theorem gives_of_stage {F : Frame backend} {h : Head} (hs : Stage ext h.call h.base h.trace)
    (hc : h.call.claim? = some (key, payload)) (ht : h.trace = []) (he : ∀ e, h.base ≠ .raise e)
    {o : Stop backend Reply} (hr : h.base.Runs F (.fresh backend) o) :
    (∃ s, F.Sees s ∧ s.idempotencyKeys.find? key ≠ none ∧ o.Gives (h.call.stored ext s)) ∨
    ∃ s, F.Sees s ∧ s.idempotencyKeys.find? key = none ∧ ∀ L', o.session? = some L' → L'.flushed ≠ [] := by
  have hbase : h.base = program ext h.call := by
    generalize hb : h.base = base at hs he
    generalize hcall : h.call = call at hs
    rw [ht] at hs
    cases hs with
    | start c => rfl
    | failed c e => exact absurd rfl (he e)
  rw [hbase] at hr
  rcases (checks_of_claim hc).ensures (F := F) (L := .fresh backend) (fun _ => rfl) rfl rfl o hr with
    ⟨s, hs, hsome, hgives⟩ | ⟨s, hs, hnone, hinserted⟩
  · exact Or.inl ⟨s, hs, fun hnone => hsome (get_record_iff.mpr hnone), hgives⟩
  · refine Or.inr ⟨s, hs, get_record_iff.mp hnone, fun L' hL' hflushed => ?_⟩
    obtain ⟨w, hw, -⟩ := hinserted L' hL'
    rw [hflushed] at hw
    contradiction

/-- A refund that has returned finds its answer in the store. -/
theorem replied_of_reach {allowed : Moment → Atomic.Act backend Call → Prop} (howned : Owned ext a₀)
    (h₀ : ∀ pid, a₀.heads pid = none)
    (hreach : Atomic.Reach (program ext) allowed Older skips a₀ a) :
    ∀ pid h k id req v, a.heads pid = some h → h.call = .refund k id req → h.base = .pure v →
      h.call.stored ext a.db = .ok v := by
  induction hreach with
  | refl =>
    intro pid h k id req v hp
    rw [h₀ pid] at hp
    contradiction
  | @tail a₁ a₂ hreach hstep ih =>
    have howned₁ := owned_of_reach howned hreach
    have hreturned := returned_of_reach howned h₀ (hreach.tail hstep)
    obtain ⟨act, hs, -⟩ := hstep
    have holder := (owned_step howned₁ hs).2
    intro pid' h' k id req v hp' hcall hv
    have hold : ∀ h', a₁.heads pid' = some h' → h'.call = .refund k id req → h'.base = .pure v →
        h'.call.stored ext a₂.db = .ok v := fun h' hp' hcall hv =>
      stored_mono holder (ih pid' h' k id req v hp' hcall hv)
    by_cases hwrote : Wrote h'.trace
    · obtain ⟨v', hv', hstored⟩ := hreturned pid' h' hp' (by rw [hcall]; trivial) hwrote
      rw [hv] at hv'
      obtain rfl := Prog.pure.inj hv'
      exact hstored
    cases hs with
    | start pid c hp =>
      rcases Atomic.heads_put hp' with ⟨-, rfl⟩ | ⟨-, hp'⟩
      · exact absurd hv (program_ne_pure (Frame.alone a₁.db []) c v)
      · exact hold h' hp' hcall hv
    | call pid h q next ans L hp ho hr =>
      rcases Atomic.heads_put hp' with ⟨-, rfl⟩ | ⟨-, hp'⟩
      · obtain ⟨k', req', p, ws, hcreate, -⟩ := calling_of_stage (howned₁.stage pid h hp) hr
        exact absurd (hcreate.symm.trans hcall) (by simp)
      · exact hold h' hp' hcall hv
    | commit pid h next L hp ho hr =>
      rcases Atomic.heads_put (a := a₁) hp' with ⟨-, rfl⟩ | ⟨-, hp'⟩
      · have hstage := howned₁.stage pid h hp
        have hempty : L.flushed = [] := by
          by_contra hne
          exact hwrote (wrote_append_committed.mpr (Or.inr hne))
        have ht : h.trace = [] := by
          change h.call = .refund k id req at hcall
          cases committed_of_stage hstage hr with
          | refundReplayed k' id' req' hc ht hrep => exact ht
          | refunded k' id' req' p r txn event hc ht href => exact ht
          | replayed k' req' r resp hc | opened k' req' p txn event hc
          | resolved k' req' p p' ws result hc | webhook rawBody signature event eventId i hc
          | expired timeoutMinutes ps hc | posted type referenceId postings txn hc
          | drained batchSize evs t hc =>
            rw [hcall] at hc
            contradiction
        have hclaim : h.call.claim? = some (("merchant_refund", k), .refund id req.amount) := by
          change h.call = .refund k id req at hcall
          rw [hcall]
          rfl
        have hactive : ∀ e, h.base ≠ .raise e := by
          intro e he
          rw [he] at hr
          contradiction
        rcases gives_of_stage hstage hclaim ht hactive hr with
          ⟨s, hs, -, hgives⟩ | ⟨s, -, -, hwritten⟩
        · obtain ⟨-, v', hstored, hnext⟩ := hgives
          change next = .pure v at hv
          rw [hv] at hnext
          obtain rfl := Prog.pure.inj hnext
          exact stored_mono holder (stored_mono hs.2 hstored)
        · exact absurd hempty (hwritten L rfl)
      · exact hold h' hp' hcall hv
    | fail pid h e hp ho hr hne he =>
      rcases Atomic.heads_put hp' with ⟨-, rfl⟩ | ⟨-, hp'⟩
      · contradiction
      · exact hold h' hp' hcall hv

theorem storedReply_ok_iff {m k : String} {reply : ℤ → Option ResponseBody → Except Exn Reply} :
    storedReply ext s m k payload reply = .ok v ↔
      ∃ r, s.idempotencyKeys.find? (m, k) = some r ∧ r.requestHash = ext.hash payload ∧
        r.status = .completed ∧ reply (codeOr200 r.responseCode) r.responseBody = .ok v := by
  unfold storedReply
  cases hr : s.idempotencyKeys.find? (m, k) with
  | none => simp
  | some r =>
    by_cases hhash : r.requestHash = ext.hash payload
    · cases hst : r.status with
      | inProgress => simp [hhash, hst]
      | completed => simp [hhash, hst]
    · simp [hhash]

theorem refundReplyOf_ok {code : ℤ} {body : Option ResponseBody}
    (h : refundReplyOf code body = .ok v) : ∃ resp, body = some (.refund resp) ∧ v = .refund code resp := by
  rcases body with _ | resp | resp
  · contradiction
  · contradiction
  · cases h
    exact ⟨resp, rfl, rfl⟩

theorem paymentReply_ok {code : ℤ} {body : Option ResponseBody}
    (h : paymentReply code body = .ok v) : ∃ resp, body = some (.payment resp) := by
  rcases body with _ | resp | resp
  · contradiction
  · exact ⟨resp, rfl⟩
  · contradiction

end Replies

section Followers

variable {ext : Externals} {skips : Key → Prop} {s s' s₀ : Database} {a a₀ : Moment} {c : Call}
  {key : String × String} {payload : Payload} {r : IdempotencyRecord}

theorem storedReply_congr {m k : String} {reply : ℤ → Option ResponseBody → Except Exn Reply}
    (h : s'.idempotencyKeys.find? (m, k) = s.idempotencyKeys.find? (m, k)) :
    storedReply ext s' m k payload reply = storedReply ext s m k payload reply := by
  unfold storedReply
  rw [h]

/-- A completed record gives the same answers at all later times. -/
theorem stored_of_older (hc : c.claim? = some (key, payload))
    (hr : s.idempotencyKeys.find? key = some r) (hst : r.status = .completed) (ho : Older s s') :
    c.stored ext s' = c.stored ext s := by
  have hr' : s'.idempotencyKeys.find? key = some r := completed_of_older ho hr hst
  cases c with
  | create k req | refund k id req =>
    cases hc
    exact storedReply_congr (hr'.trans hr.symm)
  | _ => contradiction

/-- A call that has started after the record of its key was completed in `s₀`. It writes nothing,
and unless it is cancelled it ends with the answer from the record. -/
structure Follows (ext : Externals) (s₀ : Database) (h : Head) : Prop where
  since : Older s₀ h.since
  shape : h.trace = [] ∧ ((∀ v, h.base ≠ .pure v) ∧ ∀ e, h.base = .raise e →
      e = .cancelled ∨ h.call.stored ext s₀ = .error e) ∨
    h.trace = [.committed []] ∧ ∃ v, h.call.stored ext s₀ = .ok v ∧ h.base = .pure v

theorem follows_of_reach {allowed : Moment → Atomic.Act backend Call → Prop} (howned : Owned ext a₀)
    (hc : c.claim? = some (key, payload)) (hr : a₀.db.idempotencyKeys.find? key = some r)
    (hst : r.status = .completed) {pid : ℕ} (hnew : a₀.heads pid = none)
    (hreach : Atomic.Reach (program ext) allowed Older skips a₀ a) :
    ∀ h, a.heads pid = some h → h.call = c → Follows ext a₀.db h := by
  induction hreach with
  | refl =>
    intro h hp
    rw [hnew] at hp
    contradiction
  | @tail a₁ a₂ hreach hstep ih =>
    have howned₁ := owned_of_reach howned hreach
    have holder := older_of_reach howned hreach
    obtain ⟨act, hs, -⟩ := hstep
    -- the next transaction sees the record
    have hgives : ∀ {h : Head} {o : Stop backend Reply}, a₁.heads pid = some h → h.call = c →
        h.trace = [] → Older a₀.db h.since → (∀ e, h.base ≠ .raise e) →
        h.base.Runs (a₁.frame Older skips h) (.fresh backend) o → o.Gives (h.call.stored ext a₀.db) := by
      intro h o hp hcall ht hsince he hruns
      have hclaim : h.call.claim? = some (key, payload) := by
        rw [hcall]
        exact hc
      have hseen : ∀ s, (a₁.frame Older skips h).Sees s → s.idempotencyKeys.find? key = some r :=
        fun s hs => completed_of_older (hsince.trans hs.1) hr hst
      rcases gives_of_stage (howned₁.stage pid h hp) hclaim ht he hruns with
        ⟨s, hs, -, hgives⟩ | ⟨s, hs, hnone, -⟩
      · rw [← stored_of_older hclaim hr hst (hsince.trans hs.1)]
        exact hgives
      · rw [hseen s hs] at hnone
        contradiction
    intro h' hp' hcall
    cases hs with
    | start pid₁ c₁ hp =>
      rcases Atomic.heads_put hp' with ⟨-, rfl⟩ | ⟨-, hp'⟩
      · refine ⟨holder, Or.inl ⟨rfl, program_ne_pure (Frame.alone a₁.db []) c₁, fun e he => ?_⟩⟩
        change c₁ = c at hcall
        rw [← hcall] at hc
        exact absurd he ((checks_of_claim hc).ne_raise e)
      · exact ih h' hp' hcall
    | call pid₁ h q next ans L hp ho hruns =>
      rcases Atomic.heads_put hp' with ⟨rfl, rfl⟩ | ⟨-, hp'⟩
      · obtain ⟨k, req, p, ws, -, -, ht, hws⟩ := calling_of_stage (howned₁.stage _ h hp) hruns
        rcases (ih h hp hcall).shape with ⟨ht', -⟩ | ⟨ht', -⟩
        · rw [ht] at ht'
          contradiction
        · rw [ht] at ht'
          cases ht'
          contradiction
      · exact ih h' hp' hcall
    | commit pid₁ h next L hp ho hruns =>
      rcases Atomic.heads_put (a := a₁) hp' with ⟨rfl, rfl⟩ | ⟨-, hp'⟩
      · have hfollows := ih h hp hcall
        rcases hfollows.shape with ⟨ht, -⟩ | ⟨-, v, -, hb⟩
        · have hactive : ∀ e, h.base ≠ .raise e := by
            intro e he
            rw [he] at hruns
            contradiction
          obtain ⟨hfl, v, hv, hnext⟩ := hgives hp hcall ht hfollows.since hactive hruns
          refine ⟨?_, Or.inr ⟨?_, v, hv, hnext⟩⟩
          · change Older a₀.db (view a₁.db L.flushed)
            rw [hfl]
            exact holder
          · change h.trace ++ [.committed L.flushed] = _
            rw [ht, hfl]
            rfl
        · rw [hb] at hruns
          contradiction
      · exact ih h' hp' hcall
    | fail pid₁ h e hp ho hruns hv he =>
      rcases Atomic.heads_put hp' with ⟨rfl, rfl⟩ | ⟨-, hp'⟩
      · have hfollows := ih h hp hcall
        rcases hfollows.shape with ⟨ht, -⟩ | ⟨-, v, -, hb⟩
        · refine ⟨holder, Or.inl ⟨?_, fun v hv => by contradiction, fun e' he' => ?_⟩⟩
          · change h.trace ++ [] = []
            rw [ht]
            rfl
          · obtain rfl := Prog.raise.inj he'
            rcases hruns with rfl | ⟨L, hruns⟩
            · exact Or.inl rfl
            · exact Or.inr (hgives hp hcall ht hfollows.since he hruns)
        · exact absurd hb (hv v)
      · exact ih h' hp' hcall

/-- What can be seen of such a call. -/
theorem Follows.ends {P : Call → Prop} {σ : State} (hrunning : Running ext P anyKey σ) {pid : ℕ}
    {p : Process backend Call Reply} (hp : σ.procs pid = some p) (h : Follows ext s₀ p.toHeader) :
    ¬ Wrote p.trace ∧ (∀ v, p.prog = .pure v → p.call.stored ext s₀ = .ok v) ∧
      ∀ e, p.prog = .raise e → e = .cancelled ∨ p.call.stored ext s₀ = .error e := by
  refine ⟨?_, ?_, ?_⟩
  · intro hwrote
    rcases h.shape with ⟨ht, -⟩ | ⟨ht, -⟩
    · exact not_wrote_nil (ht ▸ hwrote)
    · obtain ⟨ws, hmem, hne⟩ := hwrote
      rw [ht] at hmem
      cases List.mem_singleton.mp hmem
      exact hne rfl
  · intro v hv
    have hb := base_of_pure hrunning hp hv
    rcases h.shape with ⟨-, hne, -⟩ | ⟨-, v', hv', hb'⟩
    · exact absurd hb (hne v)
    · obtain rfl := Prog.pure.inj (hb.symm.trans hb')
      exact hv'
  · intro e he
    have hb := (hrunning.sound.replayed pid p hp).raised e he
    rcases h.shape with ⟨-, -, hraised⟩ | ⟨-, v, -, hb'⟩
    · exact hraised e hb
    · rw [hb] at hb'
      contradiction

/-- A call that starts after the record of its key was completed. -/
theorem follows_of_run {σ σ' : State} (hrunning : Running ext (fun _ => True) anyKey σ)
    (hc : c.claim? = some (key, payload)) (hr : σ.db.idempotencyKeys.find? key = some r)
    (hst : r.status = .completed) (hrun : System.Run (program ext) anyStep σ σ') {pid : ℕ}
    {p : Process backend Call Reply} (hnew : σ.procs pid = none) (hp : σ'.procs pid = some p)
    (hcall : p.call = c) : ¬ Wrote p.trace ∧ (∀ v, p.prog = .pure v → c.stored ext σ.db = .ok v) ∧
      ∀ e, p.prog = .raise e → e = .cancelled ∨ c.stored ext σ.db = .error e := by
  subst hcall
  have hstarts := starts_of_run hrun
  obtain ⟨hrunning', hreach⟩ := reach_of_service (fun _ _ h => h)
    (fun _ _ _ _ => startsAct_of_stepped) skipsOnly_anyKey hrunning hstarts
  have hidle : σ.toAtomic.heads pid = none := by simp [System.toAtomic, hnew]
  exact (follows_of_reach hrunning.owned hc hr hst hidle hreach p.toHeader (System.toAtomic_heads hp)
    rfl).ends hrunning' hp

end Followers

section Claim

variable {ext : Externals} {db : Database} {spent : List Uuid} {σ : State} {k : String}
  {payload : Payload} {v : Reply}

/-- The process has carried out the refund `r` and returned it. -/
def Refunding (σ : State) (k : String) (pid : ℕ) (r : Refund) : Prop :=
  ∃ p req, σ.procs pid = some p ∧ p.call = .refund k r.paymentId req ∧ r.amount = req.amount ∧
    Wrote p.trace ∧ p.prog = .pure (.refund 201 (receipt r))

theorem refunding_iff {P : Call → Prop} (hrunning : Running ext P anyKey σ) {pid : ℕ} {r : Refund} :
    Refunding σ k pid r ↔ ∃ h, σ.toAtomic.heads pid = some h ∧ CarriesOut h k r := by
  constructor
  · intro ⟨p, req, hp, hcall, hamount, hwrote, hprog⟩
    exact ⟨p.toHeader, System.toAtomic_heads hp, ⟨req, hcall, hamount⟩, hwrote,
      base_of_pure hrunning hp hprog⟩
  · intro ⟨h, hh, hr⟩
    obtain ⟨p, hp, rfl⟩ := Option.map_eq_some_iff.mp hh
    obtain ⟨req, hcall, hamount⟩ := hr.call
    refine ⟨p, req, hp, hcall, hamount, hr.wrote, ?_⟩
    have hreplay := (hrunning.sound.replayed pid p hp).replay
    rw [hr.returned] at hreplay
    exact Prog.eq_pure_of_replay hreplay

/-- The key stores the answer `v` to a refund with the payload. -/
def Stores (ext : Externals) (s : Database) (k : String) (payload : Payload) (v : Reply) : Prop :=
  storedReply ext s "merchant_refund" k payload refundReplyOf = .ok v

theorem stored_of_stores {s : Database} (h : Stores ext s k payload v) (id : Uuid)
    (req : RefundRequest) : (Call.refund k id req).stored ext s =
      if ext.hash (.refund id req.amount) = ext.hash payload then .ok v
      else .error (.idempotencyMismatch k) := by
  obtain ⟨r, hr, hhash, hst, hreply⟩ := storedReply_ok_iff.mp h
  unfold Call.stored storedReply
  dsimp only
  rw [hr]
  dsimp only
  rw [hhash, hst]
  by_cases heq : ext.hash payload = ext.hash (.refund id req.amount)
  · rw [if_neg (not_not.mpr heq), if_pos heq.symm]
    exact hreply
  · rw [if_pos heq, if_neg (Ne.symm heq)]

/-- Run on its own, a refund that finds the answer comes to its end and changes no table. -/
theorem refund_alone {pid : ℕ} (o : Oracle backend) (h : Stores ext σ.db k payload v)
    (hpid : σ.procs pid = none) (id : Uuid) (req : RefundRequest) :
    ∃ n σ' p', System.exec (program ext)
        (.start pid (.refund k id req) :: List.replicate n (.run pid o)) σ = some σ' ∧
      σ'.db = σ.db ∧ σ'.procs pid = some p' ∧
      p'.prog = if ext.hash (.refund id req.amount) = ext.hash payload then .pure v
        else .raise (.idempotencyMismatch k) := by
  have hstored := stored_of_stores h id req
  obtain ⟨r, hr, -⟩ := storedReply_ok_iff.mp h
  have hchecks : ∃ next, program ext (.refund k id req) = .read next ∧
      next σ.db = Prog.answering ((Call.refund k id req).stored ext σ.db) := by
    have hchecks := @checks_refund ext k id req
    generalize hprog : program ext (.refund k id req) = prog at hchecks
    cases hchecks with
    | draw next hnext => contradiction
    | read next hsome hnone =>
      refine ⟨next, rfl, hsome σ.db fun hnone => ?_⟩
      have hfind : σ.db.idempotencyKeys.find? ("merchant_refund", k) = none := get_record_iff.mp hnone
      rw [hr] at hfind
      contradiction
  obtain ⟨next, hprog, hnext⟩ := hchecks
  rw [hstored] at hnext
  by_cases heq : ext.hash (.refund id req.amount) = ext.hash payload
  · rw [if_pos heq] at hnext
    refine ⟨3, ?_⟩
    rw [if_pos heq]
    simp [System.exec, System.step, hpid, System.stepProcess, System.set, Process.atBoundary,
      hprog, localStep, view, Session.fresh, Session.see, hnext, Prog.answering, List.replicate,
      System.commit, Database.assertLedgerBalanced, backend, Header.resume]
  · rw [if_neg heq] at hnext
    refine ⟨1, ?_⟩
    rw [if_neg heq]
    simp [System.exec, System.step, hpid, System.stepProcess, System.set, Process.atBoundary,
      hprog, localStep, view, Session.fresh, Session.see, hnext, Prog.answering, List.replicate,
      System.abort, Header.resume]

/-- What the refunds with the key do that start after one with the payload has returned `v`. -/
structure RefundAnswered (ext : Externals) (σ : State) (k : String) (payload : Payload)
    (v : Reply) : Prop where
  duplicate : ∀ σ' pid p id req, System.Run (program ext) anyStep σ σ' → σ.procs pid = none →
    σ'.procs pid = some p → p.call = .refund k id req → ¬ Wrote p.trace ∧
    (∀ v', p.prog = .pure v' → ext.hash (.refund id req.amount) = ext.hash payload ∧ v' = v) ∧
    ∀ e, p.prog = .raise e → e = .cancelled ∨
      ext.hash (.refund id req.amount) ≠ ext.hash payload ∧ e = .idempotencyMismatch k
  answered : ∀ σ' pid (o : Oracle backend) id req, System.Run (program ext) anyStep σ σ' →
    σ'.procs pid = none → ∃ n σ'' p, System.exec (program ext)
        (.start pid (.refund k id req) :: List.replicate n (.run pid o)) σ' = some σ'' ∧
      σ''.db = σ'.db ∧ σ''.procs pid = some p ∧
      p.prog = if ext.hash (.refund id req.amount) = ext.hash payload then .pure v
        else .raise (.idempotencyMismatch k)

theorem refundAnswered_of_stores (hrunning : Running ext (fun _ => True) anyKey σ)
    (h : Stores ext σ.db k payload v) : RefundAnswered ext σ k payload v := by
  obtain ⟨r, hr, -, hst, -⟩ := storedReply_ok_iff.mp h
  constructor
  · intro σ' pid p id req hrun hnew hp hcall
    have hclaim : (Call.refund k id req).claim? =
        some (("merchant_refund", k), .refund id req.amount) := rfl
    obtain ⟨hidle, hreturned, hraised⟩ := follows_of_run hrunning hclaim hr hst hrun hnew hp hcall
    rw [stored_of_stores h id req] at hreturned hraised
    refine ⟨hidle, fun v' hv' => ?_, fun e he => (hraised e he).imp_right fun herror => ?_⟩
    · have hok := hreturned v' hv'
      by_cases heq : ext.hash (.refund id req.amount) = ext.hash payload
      · rw [if_pos heq] at hok
        exact ⟨heq, (Except.ok.inj hok).symm⟩
      · rw [if_neg heq] at hok
        contradiction
    · by_cases heq : ext.hash (.refund id req.amount) = ext.hash payload
      · rw [if_pos heq] at herror
        contradiction
      · rw [if_neg heq] at herror
        exact ⟨heq, (Except.error.inj herror).symm⟩
  · intro σ' pid o id req hrun hnew
    have hstarts := starts_of_run hrun
    obtain ⟨-, hreach⟩ := reach_of_service (fun _ _ h => h)
      (fun _ _ _ _ => startsAct_of_stepped) skipsOnly_anyKey hrunning hstarts
    have holder := older_of_reach hrunning.owned hreach
    exact refund_alone o (storedReply_mono holder h) hnew id req

/-- What is known of the refunds at the end of a run. -/
structure RefundsKnown (ext : Externals) (db : Database) (σ : State) : Prop where
  running : Running ext (fun _ => True) anyKey σ
  filed : Filed ext db σ
  refunds : RefundsFiled db σ.toAtomic
  returned : ∀ pid h, σ.toAtomic.heads pid = some h → h.call.inOneTransaction → Wrote h.trace →
    ∃ v, h.base = .pure v ∧ h.call.stored ext σ.db = .ok v
  replied : ∀ pid p k id req v, σ.procs pid = some p → p.call = .refund k id req →
    p.prog = .pure v → Stores ext σ.db k (.refund id req.amount) v

theorem refundsKnown_of_run (h : System.Run (program ext) anyStep (System.initial db spent) σ) :
    RefundsKnown ext db σ := by
  have hstarts := starts_of_run h
  have hrunning₀ : Running ext (fun _ => True) anyKey (System.initial db spent) := running_initial db spent
  obtain ⟨hrunning, hreach⟩ := reach_of_service (fun _ _ h => h)
    (fun _ _ _ _ => startsAct_of_stepped) skipsOnly_anyKey hrunning₀ hstarts
  refine ⟨hrunning, filed_of_run hstarts, refundsFiled_of_reach hrunning₀.owned (fun _ => rfl) hreach,
    returned_of_reach hrunning₀.owned (fun _ => rfl) hreach, ?_⟩
  intro pid p k id req v hp hcall hv
  have hstored := replied_of_reach hrunning₀.owned (fun _ => rfl) hreach pid p.toHeader k id req v
    (System.toAtomic_heads hp) hcall (base_of_pure hrunning hp hv)
  exact (congrArg (Call.stored ext σ.db) hcall).symm.trans hstored

/-- The answer under a key that was new is that of a refund carried out under it. -/
theorem RefundsKnown.origin (hk : RefundsKnown ext db σ)
    (hnew : db.idempotencyKeys.find? ("merchant_refund", k) = none) (hv : Stores ext σ.db k payload v) :
    ∃ pid r, Refunding σ k pid r ∧
      ext.hash (.refund r.paymentId r.amount) = ext.hash payload ∧ v = .refund 201 (receipt r) := by
  obtain ⟨record, hr, hhash, hst, hreply⟩ := storedReply_ok_iff.mp hv
  obtain ⟨resp, hbody, -⟩ := refundReplyOf_ok hreply
  rcases hk.filed.recorded hr with hdb | ⟨pid, p, payload', hp, hclaim, hwrote⟩
  · rw [hnew] at hdb
    contradiction
  have hhead := System.toAtomic_heads hp
  cases hcall : p.call with
  | refund k' id req =>
    rw [hcall] at hclaim
    cases hclaim
    obtain ⟨r, hcarries, -⟩ := hk.refunds.made pid p.toHeader k id req hhead hcall hwrote
    have hrefunding : Refunding σ k pid r := (refunding_iff hk.running).mpr ⟨_, hhead, hcarries⟩
    refine ⟨pid, r, hrefunding, ?_⟩
    obtain ⟨p', req', hp', hcall', hamount, -, hprog⟩ := hrefunding
    have hown := hk.replied pid p' k r.paymentId req' _ hp' hcall' hprog
    obtain ⟨record', hr', hhash', -, hreply'⟩ := storedReply_ok_iff.mp hown
    obtain rfl := Option.some.inj (hr.symm.trans hr')
    rw [hamount]
    exact ⟨hhash'.symm.trans hhash, Except.ok.inj (hreply.symm.trans hreply')⟩
  | create k' req =>
    -- a merchant of the name of the refunds: its record is not that of a refund
    rw [hcall] at hclaim
    obtain ⟨hkey, -⟩ := Prod.mk.inj (Option.some.inj hclaim)
    obtain ⟨hmerchant, rfl⟩ := Prod.mk.inj hkey
    have hstored : (Call.create k' req).stored ext σ.db =
        storedReply ext σ.db "merchant_refund" k' (.create req) paymentReply := by
      rw [← hmerchant]
      rfl
    have hcreate : p.call.isCreate := by
      rw [hcall]
      trivial
    rcases stored_of_wrote hk.filed.owned hk.returned hhead (Or.inl hcreate) hwrote with
      ⟨v', -, hv'⟩ | ⟨-, key, payload'', -, hconflict⟩
    · change p.call.stored ext σ.db = .ok v' at hv'
      rw [hcall, hstored] at hv'
      obtain ⟨record', hr', -, -, hreply'⟩ := storedReply_ok_iff.mp hv'
      obtain rfl := Option.some.inj (hr.symm.trans hr')
      obtain ⟨resp', hbody'⟩ := paymentReply_ok hreply'
      exact absurd (hbody.symm.trans hbody') (by simp)
    · change p.call.stored ext σ.db = _ at hconflict
      rw [hcall, hstored] at hconflict
      by_cases hsame : record.requestHash = ext.hash (.create req)
      · simp [storedReply, hr, hsame, hst, hbody, paymentReply, paymentResponse, Except.map] at hconflict
      · simp [storedReply, hr, hsame] at hconflict
  | _ =>
    rw [hcall] at hclaim
    contradiction

theorem eq_refund_of_claim {c : Call} {m : String} {id : Uuid} {amount : ℤ}
    (h : c.claim? = some ((m, k), .refund id amount)) : ∃ req, c = .refund k id req := by
  cases c with
  | refund k' id' req =>
    cases h
    exact ⟨req, rfl⟩
  | create k' req => exact absurd (Option.some.inj h) (by simp)
  | _ => contradiction

end Claim

end ApexPayments.Service
