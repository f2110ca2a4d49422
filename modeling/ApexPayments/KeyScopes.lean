import ApexPayments.ExactlyOnce
import ApexPayments.RowLocking.Serial

/-!
Whose requests decide what happens to an idempotency key. A claim is answered from the
record under the name of its merchant and its key; refunds are all filed under one name.
The answer depends on other requests only through a claim of the same record.
-/
namespace ApexPayments.Service

open Domain Store Ledger Payments RowLocking

section Decisions

/-- How the claim of a key is answered. -/
inductive Decision where
  | fresh
  | replay
  | conflict
  | mismatch
  deriving DecidableEq

/-- The answer to a claim of the record `key`, from the records of a store. -/
def decision (ext : Externals) (s : Database) (key : String × String) (payload : Payload) :
    Decision :=
  match s.idempotencyKeys.find? key with
  | none => .fresh
  | some r =>
      if r.requestHash ≠ ext.hash payload then .mismatch
      else
        match r.status with
        | .inProgress => .conflict
        | .completed => .replay

variable {ext : Externals} {s s' : Database} {key : String × String} {payload : Payload}

theorem decision_fresh_iff :
    decision ext s key payload = .fresh ↔ s.idempotencyKeys.find? key = none := by
  unfold decision
  cases s.idempotencyKeys.find? key with
  | none => simp
  | some r =>
    by_cases hhash : r.requestHash = ext.hash payload
    · cases hst : r.status <;> simp [hhash, hst]
    · simp [hhash]

/-- Records with one hash and one status give one answer. -/
theorem decision_congr {r r' : IdempotencyRecord} (hr : s.idempotencyKeys.find? key = some r)
    (hr' : s'.idempotencyKeys.find? key = some r') (hhash : r'.requestHash = r.requestHash)
    (hst : r'.status = r.status) : decision ext s' key payload = decision ext s key payload := by
  unfold decision
  rw [hr, hr']
  dsimp only
  rw [hhash, hst]

/-- `claimOrReplay`, against one store, ends as the decision says. -/
theorem claimOrReplay_decides (ext : Externals) (m k : String) (payload : Payload) (s : Database)
    (spent : List Uuid) :
    (claimOrReplay ext m k payload).Ensures (.alone s spent) (.fresh backend) (Stop.Ends
      (fun e _ => decision ext s (m, k) payload = .fresh ∧ Refused e ∨
        decision ext s (m, k) payload = .mismatch ∧ e = .idempotencyMismatch k ∨
        decision ext s (m, k) payload = .conflict ∧ e = .idempotencyConflict k)
      (fun x _ => decision ext s (m, k) payload = .fresh ∧ x = none ∨
        decision ext s (m, k) payload = .replay ∧ ∃ code body, x = some (code, body))) := by
  refine (claimOrReplay_ensures ext m k payload (.fresh backend) rfl).ends ?_ ?_
  · intro e L h
    rcases h with ⟨t, ht, hnone, he⟩ | ⟨t, r, hr, h⟩
    · obtain rfl : t = s := (Frame.alone_sees (B := backend) s t spent).mp ht
      exact Or.inl ⟨decision_fresh_iff.mpr hnone, he⟩
    · obtain rfl : t = s := (Frame.alone_sees (B := backend) s t spent).mp hr.1
      have hfind : t.idempotencyKeys.find? (m, k) = some r := hr.2
      rcases h with ⟨hne, he⟩ | ⟨heq, hst, he⟩
      · exact Or.inr (Or.inl ⟨by simp [decision, hfind, hne], he⟩)
      · exact Or.inr (Or.inr ⟨by simp [decision, hfind, heq, hst], he⟩)
  · intro x L h
    rcases x with _ | ⟨code, body⟩
    · obtain ⟨t, ht, hnone⟩ := h.window
      obtain rfl : t = s := (Frame.alone_sees (B := backend) s t spent).mp ht
      exact Or.inl ⟨decision_fresh_iff.mpr hnone, rfl⟩
    · obtain ⟨t, r, hr, -, hhash, hst, -, -⟩ := h
      obtain rfl : t = s := (Frame.alone_sees (B := backend) s t spent).mp hr.1
      have hfind : t.idempotencyKeys.find? (m, k) = some r := hr.2
      exact Or.inr ⟨by simp [decision, hfind, hhash, hst], code, body, rfl⟩

end Decisions

section Claims

variable {F : Frame backend} {ext : Externals} {h : Head} {next : Program Reply}
  {L : Session backend}

/-- The record that a call claims, and the payload for which it does. -/
def Call.claim? : Call → Option ((String × String) × Payload)
  | create k req => some ((req.merchantId, k), .create req)
  | refund k id req => some (("merchant_refund", k), .refund id req.amount)
  | _ => none

/-- A transaction with statements has been committed. -/
def Wrote (trace : List (RowLocking.Event backend)) : Prop := ∃ ws, .committed ws ∈ trace ∧ ws ≠ []

theorem not_wrote_nil : ¬ Wrote [] := by
  intro ⟨ws, hws, _⟩
  simp at hws

theorem wrote_append_committed {trace : List (RowLocking.Event backend)} {ws : List (Write backend)} :
    Wrote (trace ++ [.committed ws]) ↔ Wrote trace ∨ ws ≠ [] := by
  constructor
  · intro ⟨ws', hmem, hne⟩
    rcases List.mem_append.mp hmem with hmem | hmem
    · exact Or.inl ⟨ws', hmem, hne⟩
    · cases List.mem_singleton.mp hmem
      exact Or.inr hne
  · intro h
    rcases h with ⟨ws', hmem, hne⟩ | hne
    · exact ⟨ws', List.mem_append_left _ hmem, hne⟩
    · exact ⟨ws, by simp, hne⟩

theorem wrote_append_answered {trace : List (RowLocking.Event backend)} {q : Query} {ans : Answer q} :
    Wrote (trace ++ [.answered q ans]) ↔ Wrote trace := by
  simp [Wrote]

/-- What a commit does to the records. -/
inductive Files (ext : Externals) (h : Head) (ws : List (Write backend)) (s s' : Database) : Prop
  | nothing (hkeys : s'.idempotencyKeys = s.idempotencyKeys)
      (hws : h.call.claim? = none ∨ ws = [])
  | claimed (key : String × String) (payload : Payload) (r : IdempotencyRecord)
      (hc : h.call.claim? = some (key, payload)) (ht : h.trace = []) (hws : ws ≠ [])
      (hfresh : s.idempotencyKeys.find? key = none) (hr : s'.idempotencyKeys.find? key = some r)
      (hothers : ∀ key', key' ≠ key → s'.idempotencyKeys.find? key' = s.idempotencyKeys.find? key')
      (hhash : r.requestHash = ext.hash payload) (hst : h.call.isCreate ∨ r.status = .completed)
  | finished (key : String × String) (payload : Payload) (hc : h.call.claim? = some (key, payload))
      (hwrote : Wrote h.trace)
      (hothers : ∀ key', key' ≠ key → s'.idempotencyKeys.find? key' = s.idempotencyKeys.find? key')

theorem keys_of_reversedAll {ps : List Payment} {s s' : Database} {used used' : List Uuid}
    (h : ReversedAll ps s used s' used') : s'.idempotencyKeys = s.idempotencyKeys := by
  induction h with
  | nil => rfl
  | cons p ps s used ids s₁ s₂ used₂ found moved rest ih => exact ih.trans moved.same.idempotencyKeys

theorem keys_of_applied {event : Webhooks.Event} {s : Database} {used : List Uuid}
    (h : Applied F event s used L) : (F.working L).idempotencyKeys = s.idempotencyKeys := by
  cases h with
  | unreferenced hfalsy hwork hused => rw [hwork]
  | looked reference store ps href hne hlook hsnap htrans =>
    generalize F.working L = t at htrans ⊢
    generalize usedBy F L = used' at htrans
    cases htrans with
    | idle hidle => rfl
    | captured p ids s' hps hst hkind hmoved => exact hmoved.same.idempotencyKeys
    | failed p ids s' hps hst hkind hmoved => exact hmoved.same.idempotencyKeys

theorem files_of_committed (hc : Committed ext F h next L) :
    Files ext h L.flushed F.hi (view F.hi L.flushed) := by
  cases hc with
  | replayed k req r resp hc ht hr =>
    rw [hr.flushed]
    exact .nothing rfl (Or.inr rfl)
  | opened k req p txn event hc ht ho =>
    have hkeys : (view F.hi L.flushed).idempotencyKeys = F.hi.idempotencyKeys.put
        (inProgress req.merchantId k (ext.hash (.create req))) := ho.effect.same.idempotencyKeys
    refine .claimed (req.merchantId, k) (.create req)
      (inProgress req.merchantId k (ext.hash (.create req))) (by rw [hc]; rfl) ht ?_ ho.record_fresh
      ?_ ?_ rfl (Or.inl (by rw [hc]; trivial))
    · intro hws
      have hopened := ho.opened
      rw [hws] at hopened
      contradiction
    · rw [hkeys]
      exact Table.find?_put_self _ (inProgress req.merchantId k _)
    · intro key' hne
      rw [hkeys]
      exact Table.find?_put_of_ne _ _ key' hne
  | resolved k req p p' ws result hc hws ht hr =>
    have hwrote : Wrote h.trace := by
      refine ⟨ws, by simp [ht], ?_⟩
      intro hnil
      rw [hnil] at hws
      contradiction
    refine .finished (req.merchantId, k) (.create req) (by rw [hc]; rfl) hwrote ?_
    intro key' hne
    obtain ⟨ids, s₁, hmoved, -, heffect⟩ := hr.effect
    have hkeys : s₁.idempotencyKeys = F.hi.idempotencyKeys := hmoved.same.idempotencyKeys
    rcases heffect with ⟨s, -, -, hview⟩ | ⟨r, hfind, hview⟩
    · rw [hview, hkeys]
    · have hkey : (r.merchantId, r.idemKey) = (req.merchantId, k) := key_of_record hfind
      have hput := s₁.idempotencyKeys.find?_put_of_ne
        (completed p.id 201 (.payment (toResponse (decided result p'))) r) key'
        fun heq => hne (heq.trans hkey)
      rw [hview, ← hkeys]
      exact hput
  | refundReplayed k id req hc ht hr =>
    rw [hr.1]
    exact .nothing rfl (Or.inr rfl)
  | refunded k id req p r txn event hc ht hr =>
    obtain ⟨s₁, htrans, hview⟩ := hr.effect
    have hkeys : s₁.idempotencyKeys = F.hi.idempotencyKeys.put
        (inProgress "merchant_refund" k (ext.hash (.refund id req.amount))) :=
      htrans.same.idempotencyKeys
    set record := completed r.id 201 (.refund (refundReply p r))
      (inProgress "merchant_refund" k (ext.hash (.refund id req.amount))) with hrecord
    have hfind : (view F.hi L.flushed).idempotencyKeys.find? ("merchant_refund", k) = some record := by
      rw [hview]
      exact Table.find?_put_self _ record
    refine .claimed ("merchant_refund", k) (.refund id req.amount) record (by rw [hc]; rfl) ht ?_
      hr.record_fresh hfind ?_ rfl (Or.inr rfl)
    · intro hws
      rw [hws] at hfind
      have hfresh : (view F.hi []).idempotencyKeys.find? ("merchant_refund", k) = none :=
        hr.record_fresh
      rw [hfresh] at hfind
      contradiction
    · intro key' hne
      rw [hview]
      refine (Table.find?_put_of_ne s₁.idempotencyKeys record key' hne).trans ?_
      rw [hkeys]
      exact Table.find?_put_of_ne _ (inProgress "merchant_refund" k _) key' hne
  | webhook rawBody signature event eventId i hc ht hw hp =>
    refine .nothing ?_ (Or.inl (by rw [hc]; rfl))
    rcases hw.effect with hfl | hrec
    · rw [hfl]
      rfl
    · rw [← Frame.working_of_pending L hp]
      have hkeys := keys_of_applied hrec.applied
      exact hkeys
  | expired timeoutMinutes ps hc ht he =>
    exact .nothing (keys_of_reversedAll he.reversed) (Or.inl (by rw [hc]; rfl))
  | posted type referenceId postings txn hc ht hp =>
    have helse := hp.posted.elsewhere
    unfold SameElsewhere at helse
    refine .nothing ?_ (Or.inl (by rw [hc]; rfl))
    rw [helse]
  | drained batchSize evs t hc ht hd =>
    obtain ⟨s, order, hdrawn⟩ := hd.select
    refine .nothing ?_ (Or.inl (by rw [hc]; rfl))
    rw [hd.flushed]
    exact publishAll_induction (R := fun s s' => s'.idempotencyKeys = s.idempotencyKeys)
      (fun _ => rfl) (fun _ _ _ h h' => h'.trans h) t (fun _ _ _ _ => rfl) hdrawn.nodup hdrawn.current

end Claims

section Filing

variable {ext : Externals} {skips : Key → Prop} {s₀ : Database} {a a' : Moment}

/-- The record for a payload, finished unless its call has a second transaction to come. -/
def FiledFor (ext : Externals) (s : Database) (c : Call) (key : String × String)
    (payload : Payload) : Prop :=
  ∃ r, s.idempotencyKeys.find? key = some r ∧ r.requestHash = ext.hash payload ∧
    (c.isCreate ∨ r.status = .completed)

theorem FiledFor.mono {s s' : Database} {c : Call} {key : String × String} {payload : Payload}
    (h : FiledFor ext s c key payload) (ho : Older s s') : FiledFor ext s' c key payload := by
  obtain ⟨r, hr, hhash, hst⟩ := h
  obtain ⟨r', hr', hhash', hdone⟩ := ho.records key r hr
  refine ⟨r', hr', hhash'.trans hhash, ?_⟩
  rcases hst with hcreate | hst
  · exact Or.inl hcreate
  · rw [hdone hst]
    exact Or.inr hst

/-- The records that are not those of `s₀` are those of the calls that have written. -/
structure KeysFiled (ext : Externals) (s₀ : Database) (a : Moment) : Prop where
  claimed : ∀ pid h key payload, a.heads pid = some h → h.call.claim? = some (key, payload) →
    Wrote h.trace → s₀.idempotencyKeys.find? key = none ∧ FiledFor ext a.db h.call key payload
  recorded : ∀ key r, a.db.idempotencyKeys.find? key = some r →
    s₀.idempotencyKeys.find? key = some r ∨
      ∃ pid h payload, a.heads pid = some h ∧ h.call.claim? = some (key, payload) ∧ Wrote h.trace
  once : ∀ pid pid' h h' key payload payload', a.heads pid = some h → a.heads pid' = some h' →
    h.call.claim? = some (key, payload) → h'.call.claim? = some (key, payload') →
    Wrote h.trace → Wrote h'.trace → pid = pid'

/-- One process moves on to `h'`. -/
theorem KeysFiled.update (hf : KeysFiled ext s₀ a) {pid : ℕ} {h' : Head}
    (hheads : a'.heads = Function.update a.heads pid (some h')) (ho : Older a.db a'.db)
    (hold : ∀ h, a.heads pid = some h → h'.call = h.call ∧ (Wrote h.trace → Wrote h'.trace))
    (hself : ∀ key payload, h'.call.claim? = some (key, payload) → Wrote h'.trace →
      s₀.idempotencyKeys.find? key = none ∧ FiledFor ext a'.db h'.call key payload)
    (hfirst : ∀ key payload, h'.call.claim? = some (key, payload) → Wrote h'.trace →
      a.db.idempotencyKeys.find? key = none ∨ ∃ h, a.heads pid = some h ∧ Wrote h.trace)
    (hnew : ∀ key r, a'.db.idempotencyKeys.find? key = some r →
      a.db.idempotencyKeys.find? key = some r ∨
        ∃ payload, h'.call.claim? = some (key, payload) ∧ Wrote h'.trace) :
    KeysFiled ext s₀ a' := by
  have hown : a'.heads pid = some h' := by rw [hheads, Function.update_self]
  have hother : ∀ pid', pid' ≠ pid → a'.heads pid' = a.heads pid' := by
    intro pid' hne
    rw [hheads, Function.update_of_ne hne]
  -- no other call has written under the key of one that has
  have honce : ∀ pid' h key payload payload', pid' ≠ pid → a.heads pid' = some h →
      h.call.claim? = some (key, payload) → h'.call.claim? = some (key, payload') →
      Wrote h.trace → ¬ Wrote h'.trace := by
    intro pid' h key payload payload' hne hp hc hc' hwrote hwrote'
    rcases hfirst key payload' hc' hwrote' with hnone | ⟨h₁, hp₁, hwrote₁⟩
    · obtain ⟨-, r, hr, -⟩ := hf.claimed pid' h key payload hp hc hwrote
      rw [hnone] at hr
      contradiction
    · rw [(hold h₁ hp₁).1] at hc'
      exact hne (hf.once pid' pid h h₁ key payload payload' hp hp₁ hc hc' hwrote hwrote₁)
  refine ⟨?_, ?_, ?_⟩
  · intro pid' h key payload hp hc hwrote
    by_cases hne : pid' = pid
    · subst hne
      obtain rfl := Option.some.inj (hown.symm.trans hp)
      exact hself key payload hc hwrote
    · rw [hother pid' hne] at hp
      obtain ⟨hnone, hfiled⟩ := hf.claimed pid' h key payload hp hc hwrote
      exact ⟨hnone, hfiled.mono ho⟩
  · intro key r hr
    rcases hnew key r hr with hr | ⟨payload, hc, hwrote⟩
    · rcases hf.recorded key r hr with hr | ⟨pid', h, payload, hp, hc, hwrote⟩
      · exact Or.inl hr
      · right
        by_cases hne : pid' = pid
        · subst hne
          obtain ⟨hcall, hmono⟩ := hold h hp
          exact ⟨pid', h', payload, hown, hcall ▸ hc, hmono hwrote⟩
        · exact ⟨pid', h, payload, (hother pid' hne).trans hp, hc, hwrote⟩
    · exact Or.inr ⟨pid, h', payload, hown, hc, hwrote⟩
  · intro pid₁ pid₂ h₁ h₂ key payload₁ payload₂ hp₁ hp₂ hc₁ hc₂ hwrote₁ hwrote₂
    by_cases hne₁ : pid₁ = pid
    · by_cases hne₂ : pid₂ = pid
      · exact hne₁.trans hne₂.symm
      · subst hne₁
        obtain rfl := Option.some.inj (hown.symm.trans hp₁)
        rw [hother pid₂ hne₂] at hp₂
        exact absurd hwrote₁ (honce pid₂ h₂ key payload₂ payload₁ hne₂ hp₂ hc₂ hc₁ hwrote₂)
    · rw [hother pid₁ hne₁] at hp₁
      by_cases hne₂ : pid₂ = pid
      · subst hne₂
        obtain rfl := Option.some.inj (hown.symm.trans hp₂)
        exact absurd hwrote₂ (honce pid₁ h₁ key payload₁ payload₂ hne₁ hp₁ hc₁ hc₂ hwrote₁)
      · rw [hother pid₂ hne₂] at hp₂
        exact hf.once pid₁ pid₂ h₁ h₂ key payload₁ payload₂ hp₁ hp₂ hc₁ hc₂ hwrote₁ hwrote₂

theorem filed_committed (hinv : Owned ext a) (hold : Older s₀ a.db) (hf : KeysFiled ext s₀ a)
    {pid : ℕ} {h : Head} {next : Program Reply} {L : Session backend} {spent' : List Uuid}
    (hp : a.heads pid = some h) (hc : Committed ext (a.frame Older skips h) h next L) :
    KeysFiled ext s₀ { a.put pid (h.resume (view a.db L.flushed) next [.committed L.flushed]) with
      db := view a.db L.flushed
      spent := spent' } := by
  have ho : Older a.db (view a.db L.flushed) := older_of_committed hinv hp hc
  have hfiles : Files ext h L.flushed a.db (view a.db L.flushed) := files_of_committed hc
  refine hf.update rfl ho ?_ ?_ ?_ ?_
  · intro h₁ hp₁
    obtain rfl := Option.some.inj (hp.symm.trans hp₁)
    exact ⟨rfl, fun hwrote => wrote_append_committed.mpr (Or.inl hwrote)⟩
  · intro key payload hcall hwrote
    rcases wrote_append_committed.mp hwrote with hwrote | hws
    · obtain ⟨hnone, hfiled⟩ := hf.claimed pid h key payload hp hcall hwrote
      exact ⟨hnone, hfiled.mono ho⟩
    · cases hfiles with
      | nothing hkeys hempty =>
        rcases hempty with hnone | hempty
        · rw [show h.call.claim? = some (key, payload) from hcall] at hnone
          contradiction
        · exact absurd hempty hws
      | claimed key' payload' r hcall' ht hws' hfresh hr hothers hhash hst =>
        obtain ⟨rfl, rfl⟩ := Prod.mk.inj (Option.some.inj (hcall'.symm.trans hcall))
        refine ⟨?_, r, hr, hhash, hst⟩
        by_contra hsome
        obtain ⟨r₀, hr₀⟩ := Option.ne_none_iff_exists'.mp hsome
        obtain ⟨r₁, hr₁, -⟩ := hold.records key' r₀ hr₀
        rw [hfresh] at hr₁
        contradiction
      | finished key' payload' hcall' hwrote' hothers =>
        obtain ⟨rfl, rfl⟩ := Prod.mk.inj (Option.some.inj (hcall'.symm.trans hcall))
        obtain ⟨hnone, hfiled⟩ := hf.claimed pid h key' payload' hp hcall hwrote'
        exact ⟨hnone, hfiled.mono ho⟩
  · intro key payload hcall hwrote
    rcases wrote_append_committed.mp hwrote with hwrote | hws
    · exact Or.inr ⟨h, hp, hwrote⟩
    · cases hfiles with
      | nothing hkeys hempty =>
        rcases hempty with hnone | hempty
        · rw [show h.call.claim? = some (key, payload) from hcall] at hnone
          contradiction
        · exact absurd hempty hws
      | claimed key' payload' r hcall' ht hws' hfresh hr hothers hhash hst =>
        obtain ⟨rfl, rfl⟩ := Prod.mk.inj (Option.some.inj (hcall'.symm.trans hcall))
        exact Or.inl hfresh
      | finished key' payload' hcall' hwrote' hothers => exact Or.inr ⟨h, hp, hwrote'⟩
  · intro key r hr
    cases hfiles with
    | nothing hkeys hempty => exact Or.inl (hkeys ▸ hr)
    | claimed key' payload' r' hcall' ht hws' hfresh hr' hothers hhash hst =>
      by_cases hkey : key = key'
      · subst hkey
        exact Or.inr ⟨payload', hcall', wrote_append_committed.mpr (Or.inr hws')⟩
      · exact Or.inl ((hothers key hkey).symm.trans hr)
    | finished key' payload' hcall' hwrote' hothers =>
      by_cases hkey : key = key'
      · subst hkey
        exact Or.inr ⟨payload', hcall', wrote_append_committed.mpr (Or.inl hwrote')⟩
      · exact Or.inl ((hothers key hkey).symm.trans hr)

theorem filed_step (hinv : Owned ext a) (hold : Older s₀ a.db) (hf : KeysFiled ext s₀ a)
    {act : Atomic.Act backend Call} (hs : Atomic.Step (program ext) Older skips a act a') :
    KeysFiled ext s₀ a' := by
  cases hs with
  | start pid c hp =>
    refine hf.update rfl (Older.refl _) ?_ ?_ ?_ fun _ _ hr => Or.inl hr
    · intro h hh
      rw [hp] at hh
      contradiction
    · exact fun _ _ _ hwrote => absurd hwrote not_wrote_nil
    · exact fun _ _ _ hwrote => absurd hwrote not_wrote_nil
  | call pid h q next ans L hp ho hr =>
    refine hf.update rfl (Older.refl _) ?_ ?_ ?_ fun _ _ hr => Or.inl hr
    · intro h₁ hp₁
      obtain rfl := Option.some.inj (hp.symm.trans hp₁)
      exact ⟨rfl, wrote_append_answered.mpr⟩
    · exact fun key payload hc hwrote =>
        hf.claimed pid h key payload hp hc (wrote_append_answered.mp hwrote)
    · exact fun _ _ _ hwrote => Or.inr ⟨h, hp, wrote_append_answered.mp hwrote⟩
  | commit pid h next L hp ho hr =>
    exact filed_committed hinv hold hf hp (committed_of_stage (hinv.stage pid h hp) hr)
  | fail pid h e hp ho hr hv he =>
    have htrace : (h.resume a.db (.raise e) []).trace = h.trace := List.append_nil _
    refine hf.update rfl (Older.refl _) ?_ ?_ ?_ fun _ _ hr => Or.inl hr
    · intro h₁ hp₁
      obtain rfl := Option.some.inj (hp.symm.trans hp₁)
      exact ⟨rfl, fun hwrote => htrace.symm ▸ hwrote⟩
    · exact fun key payload hc hwrote => hf.claimed pid h key payload hp hc (htrace ▸ hwrote)
    · exact fun _ _ _ hwrote => Or.inr ⟨h, hp, htrace ▸ hwrote⟩

theorem filed_of_reach {allowed : Moment → Atomic.Act backend Call → Prop} {a₀ : Moment}
    (howned : Owned ext a₀) (h₀ : KeysFiled ext a₀.db a₀)
    (h : Atomic.Reach (program ext) allowed Older skips a₀ a) : KeysFiled ext a₀.db a := by
  induction h with
  | refl => exact h₀
  | tail hreach hstep ih =>
    obtain ⟨act, hs, -⟩ := hstep
    exact filed_step (owned_of_reach howned hreach) (older_of_reach howned hreach) ih hs

end Filing

section Claim

variable {ext : Externals} {db : Database} {spent : List Uuid} {σ σ' : State}

/-- The answer to the claim that a call makes. -/
def Call.answer? (ext : Externals) (s : Database) (c : Call) : Option Decision :=
  c.claim?.map fun x => decision ext s x.1 x.2

/-- An event of a history without its contents. -/
def eventShape : RowLocking.Event backend → Option Bool
  | .committed ws => some ws.isEmpty
  | .answered _ _ => none

/-- A call and the transactions that it has committed, without their contents. -/
def outline (p : Process backend Call Reply) : Call × List (Option Bool) :=
  (p.call, p.trace.map eventShape)

/-- The second run has all calls of the first, with the same transactions committed. -/
def AddsOnly (σ σ' : State) : Prop :=
  ∀ pid p, σ.procs pid = some p → ∃ p', σ'.procs pid = some p' ∧ outline p' = outline p

theorem wrote_iff_shape {trace : List (RowLocking.Event backend)} :
    Wrote trace ↔ some false ∈ trace.map eventShape := by
  constructor
  · intro ⟨ws, hmem, hne⟩
    refine List.mem_map.mpr ⟨.committed ws, hmem, ?_⟩
    simpa [eventShape] using hne
  · intro h
    obtain ⟨e, he, hshape⟩ := List.mem_map.mp h
    cases e with
    | committed ws =>
      refine ⟨ws, he, ?_⟩
      simpa [eventShape] using hshape
    | answered q ans => contradiction

theorem AddsOnly.kept (hadds : AddsOnly σ σ') {pid : ℕ} {p : Process backend Call Reply}
    (hp : σ.procs pid = some p) :
    ∃ p', σ'.procs pid = some p' ∧ p'.call = p.call ∧ p'.trace.length = p.trace.length ∧
      (Wrote p'.trace ↔ Wrote p.trace) := by
  obtain ⟨p', hp', hsame⟩ := hadds pid p hp
  obtain ⟨hcalls, hshapes⟩ := Prod.mk.inj hsame
  refine ⟨p', hp', hcalls, by simpa using congrArg List.length hshapes, ?_⟩
  rw [wrote_iff_shape, wrote_iff_shape, hshapes]

/-- A call of `create` that has written has opened a payment, which it owns until it
returns with its third event. -/
theorem opened_of_wrote {a : Moment} (hinv : Owned ext a) {pid : ℕ} {h : Head} {k : String}
    {req : CreatePaymentRequest} (hp : a.heads pid = some h) (hc : h.call = .create k req)
    (hwrote : Wrote h.trace) :
    ∃ p, openedBy h = some p ∧
      (owned h = some p ∧ h.trace.length ≠ 3 ∧ (∀ v, h.base ≠ .pure v) ∨
        owned h = none ∧ h.trace.length = 3) := by
  have hs := hinv.stage pid h hp
  obtain ⟨call, since, base, trace⟩ := h
  dsimp only at hc hs hwrote ⊢
  subst hc
  cases hs with
  | start c => exact absurd hwrote not_wrote_nil
  | failed c e => exact absurd hwrote not_wrote_nil
  | returned c reply ws hnot => exact absurd trivial hnot
  | replayed k req code resp =>
    obtain ⟨ws, hmem, hne⟩ := hwrote
    cases List.mem_singleton.mp hmem
    contradiction
  | held k req p ws hws =>
    refine ⟨p, by simp [openedBy, hws], Or.inl ⟨by simp [owned, hws], by simp, ?_⟩⟩
    intro v hv
    contradiction
  | answered k req p ws result hws =>
    exact ⟨p, by simp [openedBy, hws], Or.inl ⟨by simp [owned, hws], by simp,
      resolve_ne_pure (Frame.alone a.db []) k req p.id result⟩⟩
  | stranded k req p ws e hws =>
    exact ⟨p, by simp [openedBy, hws], Or.inl ⟨by simp [owned, hws], by simp, by simp⟩⟩
  | strandedLate k req p ws ans e hws =>
    exact ⟨p, by simp [openedBy, hws], Or.inl ⟨by simp [owned, hws], by simp, by simp⟩⟩
  | resolved k req p ws ws₂ ans resp hws hws₂ =>
    exact ⟨p, by simp [openedBy, hws], Or.inr ⟨by simp [owned], by simp⟩⟩

/-- The record of a call of `create` that has written is completed with its third event. -/
theorem status_of_create {a : Moment} (hinv : Owned ext a) {pid : ℕ} {h : Head} {k : String}
    {req : CreatePaymentRequest} (hp : a.heads pid = some h) (hc : h.call = .create k req)
    (hwrote : Wrote h.trace) :
    ∃ r, a.db.idempotencyKeys.find? (req.merchantId, k) = some r ∧
      (r.status = .completed ↔ h.trace.length = 3) := by
  obtain ⟨p, hopened, hwhere⟩ := opened_of_wrote hinv hp hc hwrote
  have hholds := hinv.holds pid h k req p hp hc hopened
  rcases hwhere with ⟨howned, hlen, -⟩ | ⟨howned, hlen⟩
  · obtain ⟨-, hr, -⟩ := hholds.unresolved howned
    exact ⟨_, hr, by simp [inProgress, hlen]⟩
  · obtain ⟨resp, -, -, hr⟩ := hholds.resolved howned
    exact ⟨_, hr, by simp [completed, hlen]⟩

/-- The record of a call that has written, by the outline of the call. -/
theorem record_of_wrote {s₀ : Database} {a : Moment} (hinv : Owned ext a)
    (hf : KeysFiled ext s₀ a) {pid : ℕ} {h : Head} {key : String × String} {payload : Payload}
    (hp : a.heads pid = some h) (hc : h.call.claim? = some (key, payload)) (hwrote : Wrote h.trace) :
    s₀.idempotencyKeys.find? key = none ∧ ∃ r, a.db.idempotencyKeys.find? key = some r ∧
      r.requestHash = ext.hash payload ∧
      (r.status = .completed ↔ ¬ h.call.isCreate ∨ h.trace.length = 3) := by
  obtain ⟨hnone, r, hr, hhash, hst⟩ := hf.claimed pid h key payload hp hc hwrote
  refine ⟨hnone, r, hr, hhash, ?_⟩
  by_cases hcreate : h.call.isCreate
  · cases hcall : h.call with
    | create k req =>
      rw [hcall] at hc
      cases hc
      obtain ⟨r', hr', hiff⟩ := status_of_create hinv hp hcall hwrote
      obtain rfl := Option.some.inj (hr.symm.trans hr')
      simpa [Call.isCreate] using hiff
    | _ => simp [hcall, Call.isCreate] at hcreate
  · have hdone : r.status = .completed := hst.resolve_left hcreate
    simp [hdone, hcreate]

theorem status_eq_of_iff {x y : IdempotencyStatus} (h : x = .completed ↔ y = .completed) : x = y := by
  cases x <;> cases y <;> simp_all

/-- What is known at the end of a run that began with the store `db`. -/
structure Filed (ext : Externals) (db : Database) (σ : State) : Prop where
  owned : Owned ext σ.toAtomic
  older : Older db σ.db
  filed : KeysFiled ext db σ.toAtomic

theorem filed_of_run (h : System.Run (program ext) (Starts fun _ => True) (System.initial db spent) σ) :
    Filed ext db σ := by
  have hrunning₀ : Running ext (fun _ => True) anyKey (System.initial db spent) := running_initial db spent
  obtain ⟨hrunning, hreach⟩ := reach_of_service (fun _ _ h => h)
    (fun _ _ _ _ => startsAct_of_stepped) skipsOnly_anyKey hrunning₀ h
  refine ⟨hrunning.owned, older_of_reach hrunning₀.owned hreach, filed_of_reach hrunning₀.owned ?_ hreach⟩
  refine ⟨?_, fun _ _ hr => Or.inl hr, ?_⟩
  · intro pid h key payload hp
    contradiction
  · intro pid pid' h h' key payload payload' hp
    contradiction

/-- A process that has committed statements and claims `key`. -/
def ClaimedBy (σ : State) (key : String × String) (pid : ℕ) : Prop :=
  ∃ p payload, σ.procs pid = some p ∧ p.call.claim? = some (key, payload) ∧ Wrote p.trace

section Pair

variable {key : String × String} (hf : Filed ext db σ) (hf' : Filed ext db σ') (hadds : AddsOnly σ σ')

include hf in
theorem Filed.stale {pid : ℕ} (hc : ClaimedBy σ key pid) :
    db.idempotencyKeys.find? key = none ∧ σ.db.idempotencyKeys.find? key ≠ none := by
  obtain ⟨p, payload, hp, hcall, hwrote⟩ := hc
  obtain ⟨hnone, r, hr, -⟩ := record_of_wrote hf.owned hf.filed (System.toAtomic_heads hp) hcall hwrote
  exact ⟨hnone, Option.ne_none_iff_exists'.mpr ⟨r, hr⟩⟩

include hf in
theorem Filed.recorded {r : IdempotencyRecord} (hr : σ.db.idempotencyKeys.find? key = some r) :
    db.idempotencyKeys.find? key = some r ∨ ∃ pid, ClaimedBy σ key pid := by
  rcases hf.filed.recorded key r hr with hdb | ⟨pid, h, payload, hp, hcall, hwrote⟩
  · exact Or.inl hdb
  · obtain ⟨p, hproc, rfl⟩ := Option.map_eq_some_iff.mp hp
    exact Or.inr ⟨pid, p, payload, hproc, hcall, hwrote⟩

include hf in
theorem Filed.once {pid pid' : ℕ} (hc : ClaimedBy σ key pid) (hc' : ClaimedBy σ key pid') :
    pid = pid' := by
  obtain ⟨p, payload, hp, hcall, hwrote⟩ := hc
  obtain ⟨p', payload', hp', hcall', hwrote'⟩ := hc'
  exact hf.filed.once pid pid' _ _ key payload payload' (System.toAtomic_heads hp)
    (System.toAtomic_heads hp') hcall hcall' hwrote hwrote'

include hadds in
theorem claimedBy_iff {pid : ℕ} (hpid : σ.procs pid ≠ none) :
    ClaimedBy σ' key pid ↔ ClaimedBy σ key pid := by
  obtain ⟨p, hp⟩ := Option.ne_none_iff_exists'.mp hpid
  obtain ⟨p', hp', hcalls, -, hwrote⟩ := hadds.kept hp
  constructor
  · intro ⟨q, payload, hq, hcall, hq'⟩
    obtain rfl := Option.some.inj (hp'.symm.trans hq)
    exact ⟨p, payload, hp, hcalls ▸ hcall, hwrote.mp hq'⟩
  · intro ⟨q, payload, hq, hcall, hq'⟩
    obtain rfl := Option.some.inj (hp.symm.trans hq)
    exact ⟨p', payload, hp', hcalls.symm ▸ hcall, hwrote.mpr hq'⟩

include hf hf' hadds in
/-- A shared call that has claimed a record has filed the same answer in both runs. -/
theorem decision_of_shared {pid : ℕ} (hc : ClaimedBy σ key pid) (payload : Payload) :
    decision ext σ'.db key payload = decision ext σ.db key payload := by
  obtain ⟨p, payload', hp, hcall, hwrote⟩ := hc
  obtain ⟨p', hp', hcalls, hlen, hwrote'⟩ := hadds.kept hp
  obtain ⟨-, r, hr, hhash, hst⟩ :=
    record_of_wrote hf.owned hf.filed (System.toAtomic_heads hp) hcall hwrote
  obtain ⟨-, r', hr', hhash', hst'⟩ := record_of_wrote hf'.owned hf'.filed
    (System.toAtomic_heads hp') (hcalls ▸ hcall) (hwrote'.mpr hwrote)
  refine decision_congr hr hr' (hhash'.trans hhash.symm) (status_eq_of_iff ?_)
  rw [hst, hst', hcalls, hlen]

include hf hf' hadds in
/-- An additional call that has claimed a record changes the answer. -/
theorem decision_ne_of_claimed {pid : ℕ} (hnew : σ.procs pid = none) (hc : ClaimedBy σ' key pid)
    (payload : Payload) : decision ext σ'.db key payload ≠ decision ext σ.db key payload := by
  intro hagree
  obtain ⟨hnone, hstale⟩ := hf'.stale hc
  have hfresh : σ.db.idempotencyKeys.find? key = none := by
    by_contra hsome
    obtain ⟨r, hr⟩ := Option.ne_none_iff_exists'.mp hsome
    rcases hf.recorded hr with hdb | ⟨pid₁, hc₁⟩
    · rw [hnone] at hdb
      contradiction
    · have hproc : σ.procs pid₁ ≠ none := by
        obtain ⟨p₁, -, hp₁, -⟩ := hc₁
        simp [hp₁]
      obtain rfl := hf'.once hc ((claimedBy_iff hadds hproc).mpr hc₁)
      exact hproc hnew
  rw [decision_fresh_iff.mpr hfresh, decision_fresh_iff] at hagree
  exact hstale hagree

include hf hf' hadds in
/-- Without a claim by an additional call the answer is the same. -/
theorem decision_of_unclaimed (hnone : ∀ pid, σ.procs pid = none → ¬ ClaimedBy σ' key pid)
    (payload : Payload) : decision ext σ'.db key payload = decision ext σ.db key payload := by
  by_cases hclaimed : ∃ pid, ClaimedBy σ key pid
  · obtain ⟨pid, hc⟩ := hclaimed
    exact decision_of_shared hf hf' hadds hc payload
  -- no call has claimed the record, so it is the one of the store at the start
  have hclaimed' : ¬ ∃ pid, ClaimedBy σ' key pid := by
    intro ⟨pid, hc⟩
    by_cases hpid : σ.procs pid = none
    · exact hnone pid hpid hc
    · exact hclaimed ⟨pid, (claimedBy_iff hadds hpid).mp hc⟩
  have hinitial : ∀ {τ : State}, Filed ext db τ → (¬ ∃ pid, ClaimedBy τ key pid) →
      τ.db.idempotencyKeys.find? key = db.idempotencyKeys.find? key := by
    intro τ hτ hno
    cases hr : τ.db.idempotencyKeys.find? key with
    | some r => exact ((hτ.recorded hr).resolve_right hno).symm
    | none =>
      by_contra hsome
      obtain ⟨r, hdb⟩ := Option.ne_none_iff_exists'.mp (Ne.symm hsome)
      obtain ⟨r', hr', -⟩ := hτ.older.records key r hdb
      rw [hr] at hr'
      contradiction
  unfold decision
  rw [hinitial hf hclaimed, hinitial hf' hclaimed']

end Pair

/-- The answer to a request depends on additional requests exactly if one of them has
claimed the same record. -/
theorem answers_agree_iff {c : Call} {key : String × String} {payload : Payload}
    (hc : c.claim? = some (key, payload))
    (h : System.Run (program ext) (Starts fun _ => True) (System.initial db spent) σ)
    (h' : System.Run (program ext) (Starts fun _ => True) (System.initial db spent) σ')
    (hadds : AddsOnly σ σ') :
    c.answer? ext σ'.db = c.answer? ext σ.db ↔
      ∀ pid, σ.procs pid = none → ¬ ClaimedBy σ' key pid := by
  have hf := filed_of_run h
  have hf' := filed_of_run h'
  have hanswer : c.answer? ext σ'.db = c.answer? ext σ.db ↔
      decision ext σ'.db key payload = decision ext σ.db key payload := by
    simp [Call.answer?, hc]
  rw [hanswer]
  constructor
  · intro hagree pid hnew hclaimed
    exact decision_ne_of_claimed hf hf' hadds hnew hclaimed payload hagree
  · intro hnone
    exact decision_of_unclaimed hf hf' hadds hnone payload

/-- Additional requests under other records change nothing: refunds for a call of `create`,
unless it comes from a merchant of the name of the refunds, and calls of `create` for a
refund, unless they do. -/
theorem answers_agree_of_keys {c : Call} {key : String × String} {payload : Payload}
    (hc : c.claim? = some (key, payload))
    (h : System.Run (program ext) (Starts fun _ => True) (System.initial db spent) σ)
    (h' : System.Run (program ext) (Starts fun _ => True) (System.initial db spent) σ')
    (hadds : AddsOnly σ σ')
    (hkeys : ∀ pid p payload', σ.procs pid = none → σ'.procs pid = some p →
      p.call.claim? ≠ some (key, payload')) : c.answer? ext σ'.db = c.answer? ext σ.db := by
  apply (answers_agree_iff hc h h' hadds).mpr
  intro pid hnew ⟨p, payload', hp, hcall, _⟩
  exact hkeys pid p payload' hnew hp hcall

section Sample

/-- A request of another party that uses the key `k` as well. -/
def OtherParty (s : Database) (merchantId k : String) : Call → Prop
  | .refund k' id _ => k' = k ∧ ∀ p, s.payments.find? id = some p → p.merchantId ≠ merchantId
  | .create k' _ => k' = k
  | _ => False

/-- The payment and the balances of its two parties are the same. -/
structure Undisturbed (s s' : Database) (p : Payment) : Prop where
  before : s.payments.find? p.id = some p
  after : s'.payments.find? p.id = some p
  payer : balanceOf s' p.payerAccount = balanceOf s p.payerAccount
  payee : balanceOf s' p.payeeAccount = balanceOf s p.payeeAccount

/-- Two payers with 100 each, and an account for each of two shops. -/
def shopsDatabase : Database :=
  { sampleDatabase with
    accounts := (sampleDatabase.accounts.put ⟨4, "USD"⟩).put ⟨5, "USD"⟩
    accountBalances := sampleDatabase.accountBalances.put ⟨4, 100, 0⟩ }

/-- A payment of 50 at a shop. -/
def shopRequest (merchantId : String) (payer payee : Uuid) (h : 1 ≤ merchantId.length) :
    CreatePaymentRequest :=
  { sampleRequest payee with
    merchantId := merchantId
    payerAccountId := payer
    merchantId_nonempty := h }

theorem shop_nonempty : 1 ≤ "shop".length := by decide

theorem other_nonempty : 1 ≤ "other".length := by decide

/-- A refund of the whole payment. -/
def shopRefund : RefundRequest := ⟨50, (sampleRequest 3).amount_pos⟩

/-- A service that tells the refunds of payment 10 from other requests. -/
def shopExternals : Externals :=
  { sampleExternals with hash := fun
      | .refund 10 _ => "10"
      | _ => "hash" }

/-- A payment at each of two shops, both captured. -/
def paidSteps : List (Label backend Call) :=
  (.start 0 (.create "a" (shopRequest "shop" 2 3 shop_nonempty)) ::
    sampleSteps 0 10 68 (.ok ⟨.captured, some "psp", none⟩) 0) ++
  .start 1 (.create "b" (shopRequest "other" 4 5 other_nonempty)) ::
    sampleSteps 1 100 65 (.ok ⟨.captured, some "psp", none⟩) 0

/-- A refund of the payment at the other shop. -/
def foreignSteps : List (Label backend Call) :=
  .start 2 (.refund "key" 100 shopRefund) :: sampleSteps 2 200 37 (.error "") 0

/-- The payment of the first shop. -/
def shopPayment : Payment :=
  ⟨10, "shop", 2, 3, 50, "USD", .succeeded, some "psp", 0, 1, 0⟩

/-- What the first shop can see, the merchant of the other payment, and two answers: to
a refund of the first payment and to a call of `create`, both with the key in question. -/
structure ShopView where
  payment : Option Payment
  payer : ℤ
  payee : ℤ
  other : Option String
  refund : Decision
  create : Decision
  deriving DecidableEq

def shopView (σ : State) : ShopView where
  payment := σ.db.payments.find? 10
  payer := balanceOf σ.db 2
  payee := balanceOf σ.db 3
  other := (σ.db.payments.find? 100).map Payment.merchantId
  refund := decision shopExternals σ.db ("merchant_refund", "key") (.refund 10 50)
  create := decision shopExternals σ.db ("shop", "key")
    (.create (shopRequest "shop" 2 3 shop_nonempty))

/-- Two payments, and the same with a refund of the second one. -/
theorem exists_shop_runs :
    ∃ σ σ', System.Run (program shopExternals) (Starts fun _ => True)
        (System.initial shopsDatabase []) σ ∧
      System.Run (program shopExternals) (Starts fun _ => True)
        (System.initial shopsDatabase []) σ' ∧ AddsOnly σ σ' ∧
      (∀ pid q, σ.procs pid = none → σ'.procs pid = some q →
        q.call.claim? = some (("merchant_refund", "key"), .refund 100 50)) ∧
      shopView σ = ⟨some shopPayment, 50, 50, some "other", .fresh, .fresh⟩ ∧
      shopView σ' = ⟨some shopPayment, 50, 50, some "other", .mismatch, .fresh⟩ := by
  obtain ⟨σ, hexec, hrest⟩ : ∃ σ, System.exec (program shopExternals) paidSteps
      (System.initial shopsDatabase []) = some σ ∧
      (System.exec (program shopExternals) foreignSteps σ).map
        (fun σ' => ((σ'.procs 2).map fun q => q.call.claim?, shopView σ, shopView σ')) =
        some (some (some (("merchant_refund", "key"), .refund 100 50)),
          ⟨some shopPayment, 50, 50, some "other", .fresh, .fresh⟩,
          ⟨some shopPayment, 50, 50, some "other", .mismatch, .fresh⟩) := by
    apply Option.bind_eq_some_iff.mp
    decide +kernel
  obtain ⟨σ', hexec', hviews⟩ := Option.map_eq_some_iff.mp hrest
  obtain ⟨hcall, hviews⟩ := Prod.mk.inj hviews
  obtain ⟨hview, hview'⟩ := Prod.mk.inj hviews
  have hsame : ∀ pid, pid ≠ 2 → σ'.procs pid = σ.procs pid := by
    intro pid hne
    apply System.procs_of_exec hexec'
    intro l hl
    rcases List.mem_cons.mp hl with rfl | hl
    · exact hne
    · obtain ⟨i, -, rfl⟩ := List.mem_map.mp hl
      exact hne
  have hfirst : σ.procs 2 = none := by
    apply System.procs_of_exec hexec
    intro l hl
    rcases List.mem_append.mp hl with hl | hl
    all_goals
      rcases List.mem_cons.mp hl with rfl | hl
      · simp [Label.pid]
      · obtain ⟨i, -, rfl⟩ := List.mem_map.mp hl
        simp [Label.pid]
  have hrun := System.run_of_exec hexec (starts_append (starts_sample (P := fun _ => True) trivial)
    (starts_sample trivial))
  have hrun' := System.run_of_exec hexec' (starts_sample (P := fun _ => True) trivial)
  refine ⟨σ, σ', hrun, hrun.trans hrun', ?_, ?_, hview, hview'⟩
  · intro pid p hp
    have hne : pid ≠ 2 := by
      rintro rfl
      rw [hfirst] at hp
      contradiction
    exact ⟨p, (hsame pid hne).trans hp, rfl⟩
  · intro pid q hnew hq
    by_cases hpid : pid = 2
    · subst hpid
      rw [hq] at hcall
      exact Option.some.inj hcall
    · rw [hsame pid hpid, hnew] at hq
      contradiction

/-- The additional refund does not concern a call of `create` with the same key. -/
theorem answers_agree_iff_sample :
    ∃ σ σ', AddsOnly σ σ' ∧ σ ≠ σ' ∧
      Call.answer? shopExternals σ'.db (.create "key" (shopRequest "shop" 2 3 (by decide))) =
        Call.answer? shopExternals σ.db (.create "key" (shopRequest "shop" 2 3 (by decide))) := by
  obtain ⟨σ, σ', hrun, hrun', hadds, hextra, hview, hview'⟩ := exists_shop_runs
  refine ⟨σ, σ', hadds, ?_, (answers_agree_iff rfl hrun hrun' hadds).mpr ?_⟩
  · intro heq
    rw [heq, hview'] at hview
    contradiction
  · intro pid hnew ⟨q, payload, hq, hcall, _⟩
    rw [hextra pid q hnew hq] at hcall
    have hmerchant : "merchant_refund" = "shop" :=
      congrArg (fun x => x.1.1) (Option.some.inj hcall)
    contradiction

/-- A refund at another shop with the same key: the shop's own refund is refused. -/
theorem foreign_refund_changes_answer :
    ¬ ∀ (ext : Externals) (db : Database) (spent : List Uuid) (σ σ' : State) (k : String)
      (p : Payment) (req : RefundRequest),
      System.Run (program ext) (Starts fun _ => True) (System.initial db spent) σ →
      System.Run (program ext) (Starts fun _ => True) (System.initial db spent) σ' →
      AddsOnly σ σ' → Undisturbed σ.db σ'.db p →
      (∀ pid q, σ.procs pid = none → σ'.procs pid = some q →
        OtherParty σ.db p.merchantId k q.call) →
      Call.answer? ext σ'.db (.refund k p.id req) = Call.answer? ext σ.db (.refund k p.id req) := by
  intro hall
  obtain ⟨σ, σ', hrun, hrun', hadds, hextra, hview, hview'⟩ := exists_shop_runs
  obtain ⟨hp, hpayer, hpayee, hother, hrefund, -⟩ := ShopView.mk.inj hview
  obtain ⟨hp', hpayer', hpayee', -, hrefund', -⟩ := ShopView.mk.inj hview'
  have hanswer := hall shopExternals shopsDatabase [] σ σ' "key" shopPayment ⟨50, by decide⟩ hrun hrun'
    hadds ⟨hp, hp', hpayer'.trans hpayer.symm, hpayee'.trans hpayee.symm⟩ ?_
  · change some (decision shopExternals σ'.db ("merchant_refund", "key") (.refund 10 50)) =
      some (decision shopExternals σ.db ("merchant_refund", "key") (.refund 10 50)) at hanswer
    rw [hrefund, hrefund'] at hanswer
    contradiction
  · intro pid q hnew hq
    have hcall := hextra pid q hnew hq
    cases hc : q.call with
    | refund k id req =>
      rw [hc] at hcall
      simp only [Call.claim?, Option.some.injEq, Prod.mk.injEq, true_and, Payload.refund.injEq] at hcall
      obtain ⟨rfl, rfl, -⟩ := hcall
      refine ⟨rfl, ?_⟩
      intro p' hp'
      rw [hp'] at hother
      have hmerchant : p'.merchantId = "other" := Option.some.inj hother
      rw [hmerchant]
      decide
    | _ => simp [hc, Call.claim?] at hcall

end Sample

end Claim

end ApexPayments.Service
