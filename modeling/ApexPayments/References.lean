import ApexPayments.Grounds
import ApexPayments.Lifecycle

/-!
The references by which the provider names payments. A payment that has a reference keeps it, and
a webhook looks for the payment that has the reference of its event: it cannot tell two payments
apart that have the same one.
-/
namespace ApexPayments.Service

open Domain Store Ledger Payments Webhooks RowLocking

section Stability

variable {ext : Externals} {σ σ' : State} {l : Label backend Call} {P : Call → Prop}
  {skips : Key → Prop} {p q : Payment} {r : AuthorizationResult} {reference : String}

theorem eq_of_id {t : Table Payment.id} (hp : p ∈ t.rows) (hq : q ∈ t.rows) (hid : p.id = q.id) :
    p = q := by
  have hfound := Table.find?_of_mem hp
  rw [hid, Table.find?_of_mem hq] at hfound
  exact (Option.some.inj hfound).symm

theorem Justified.not_processing (h : Justified ext σ r p) : p.status ≠ .processing := by
  intro hst
  cases h with
  | captured _ hst' _ | capturedLater _ _ _ hst' _ _ =>
    rw [hst] at hst'
    rcases hst' with h | h <;> contradiction
  | declined _ hst' _ | pending _ hst' _ | failedLater _ _ _ hst' _ _ | expired _ _ hst' _ =>
    rw [hst] at hst'
    contradiction

/-- A payment that is processing has no reference yet. -/
theorem Grounds.processing (h : Grounds ext σ p) (hst : p.status = .processing) :
    p.pspReference = none := by
  cases h with
  | opened hp => exact congrArg Payment.pspReference hp
  | answered p₀ r hp hr hj => exact absurd hst hj.not_processing

/-- No commit changes a reference. -/
theorem reference_of_origin (h : Running ext P skips σ) (hσ : ∀ p ∈ σ.db.payments.rows, Grounds ext σ p)
    {pid : ℕ} {proc : Process backend Call Reply} (hproc : σ.procs pid = some proc)
    (ho : RowOrigin ext σ.db proc.toHeader q) (hp : p ∈ σ.db.payments.rows) (hid : q.id = p.id)
    (hleads : LeadsTo p.status q.status) (href : p.pspReference = some reference) :
    q.pspReference = some reference := by
  cases ho with
  | kept hq =>
    rw [eq_of_id hq hp hid]
    exact href
  | opened hopened =>
    have hprocessing : q.status = .processing := congrArg Payment.status hopened
    have hnone : p.pspReference = none := by
      apply (hσ p hp).processing
      rw [hprocessing] at hleads
      rcases rank_le hleads with heq | hlt
      · exact heq
      · exact absurd hlt (Nat.not_lt_zero _)
    rw [href] at hnone
    contradiction
  | decided k req p₀ p' ws result hc hws ht hfound hdecided =>
    obtain ⟨rfl, hopened⟩ := found_as_opened h hproc hc hws ht hfound
    subst hdecided
    rw [id_decided] at hid
    obtain rfl := eq_of_id hp (Table.mem_of_find? hfound) hid.symm
    have hnone : p.pspReference = none := congrArg Payment.pspReference hopened
    rw [href] at hnone
    contradiction
  | reported rawBody signature reference' fresh eventId event kind p' hc ht hd href' hkind hp' hst hpref hmoved =>
    rcases hmoved with ⟨rfl, rfl⟩ | ⟨rfl, rfl⟩
    · obtain rfl := eq_of_id hp hp' hid.symm
      exact hpref.symm.trans href
    · obtain rfl := eq_of_id hp hp' hid.symm
      exact href
  | expired timeoutMinutes p' hc hp' hst hreversed =>
    subst hreversed
    obtain rfl := eq_of_id hp hp' hid.symm
    exact href
  | refunded amount p' hp' hst hrefunded =>
    subst hrefunded
    obtain rfl := eq_of_id hp hp' hid.symm
    exact href

variable {db : Database} {spent : List Uuid}

/-- A payment keeps its reference. -/
theorem reference_of_run (hpayments : db.payments.rows = [])
    (h : System.Run (program ext) anyStep (System.initial db spent) σ)
    (h' : System.Run (program ext) anyStep σ σ') (hp : p ∈ σ.db.payments.rows)
    (href : p.pspReference = some reference) :
    ∃ q ∈ σ'.db.payments.rows, q.id = p.id ∧ q.pspReference = some reference := by
  induction h' with
  | refl => exact ⟨p, hp, rfl, href⟩
  | @tail σ₁ σ₂ hrest hstep ih =>
    obtain ⟨q, hq, hid, href₁⟩ := ih
    have hrun := h.trans hrest
    have hrunning := running_of_run hrun
    obtain ⟨q', hq', hevolves⟩ := evolves_of_changes
      (changes_of_run hrunning (starts_of_run (.single hstep))).2 (Table.find?_of_mem hq)
    have hid' : q'.id = q.id := by rw [hevolves.terms]
    have hmem := Table.mem_of_find? hq'
    refine ⟨q', hmem, hid'.trans hid, ?_⟩
    obtain ⟨l, hl, -⟩ := hstep
    rcases origin_of_step hrunning hl hmem with hold | ⟨pid, proc, _, _, hproc, _, _, _, _, _, ho⟩
    · rw [eq_of_id hold hq hid']
      exact href₁
    · exact reference_of_origin hrunning (grounds_of_run hpayments hrun) hproc ho hq hid' hevolves.status
        href₁

end Stability

section Lookup

variable {ext : Externals} {F : Frame backend} {reference rawBody signature : String}

/-- Two payments have the reference. -/
def Ambiguous (s : Database) (reference : String) : Prop :=
  ∃ p ∈ s.payments.rows, ∃ p' ∈ s.payments.rows, p.id ≠ p'.id ∧ p.pspReference = some reference ∧
    p'.pspReference = some reference

/-- The event of the webhook has a reference that two payments have. -/
def Confused (ext : Externals) (s : Database) (rawBody : String) : Prop :=
  ∃ fresh event eventId reference, Decodes ext rawBody fresh event eventId ∧
    event.pspReference = .str reference ∧ Ambiguous s reference

theorem plain_of_refused {e : Exn} (h : Refused e) : e ≠ .multipleResultsFound := by
  rintro rfl
  rcases h with ⟨c, hc⟩ | ⟨c, hc⟩ | ⟨c, hc⟩ | ⟨c, hc⟩ <;> contradiction

theorem plain_of_post {ps : List Posting} {L : Session backend} {e : Exn} (h : PostRaises F ps L e) :
    e ≠ .multipleResultsFound := by
  rcases h with h | h | ⟨before, p, after, -, -, -, rfl⟩
  · rcases validateBalanced_error h with ⟨n, rfl⟩ | ⟨m, rfl⟩ <;> simp
  · exact plain_of_refused h
  · simp

theorem plain_of_resolve {id : Uuid} {q : Payment → Payment} {t : Payment → Transfer}
    {L : Session backend} {e : Exn} (h : ResolveRaises F id q t L e) : e ≠ .multipleResultsFound := by
  rcases h with ⟨rfl, -⟩ | h | ⟨p, -, h⟩
  · simp
  · exact plain_of_refused h
  · exact plain_of_post h

theorem transition_finds_one (eventType : Json) (reference : String) (L : Session backend)
    (hp : L.pending = []) :
    (transition eventType reference).Ensures F L (Stop.Ends
      (fun e _ => e = .multipleResultsFound → Ambiguous (view F.hi L.flushed) reference)
      (fun _ _ => True)) := by
  unfold transition
  refine Prog.Ensures.bind (selectForUpdate_ensures _ L) (fun _ _ h => h.elim) ?_
  intro ps L₁ ⟨s, h⟩
  have hp₁ : L₁.pending = [] := h.pending.trans hp
  rcases ps with _ | ⟨p, _ | ⟨p', ps⟩⟩
  · exact Prog.Ensures.pure trivial
  · dsimp only
    split
    · refine ensures_ofExcept ?_ ?_
      · intro kind _
        rcases kind with _ | _ | _
        · exact Prog.Ensures.pure trivial
        · refine Prog.Ensures.bind (settle_ensures p.id reference L₁ hp₁) ?_ ?_
          · exact fun e _ he hmany => absurd hmany (plain_of_resolve he)
          · exact fun _ _ _ => Prog.Ensures.pure trivial
        · refine Prog.Ensures.bind (reverse_ensures p.id L₁ hp₁) ?_ ?_
          · exact fun e _ he hmany => absurd hmany (plain_of_resolve he)
          · exact fun _ _ _ => Prog.Ensures.pure trivial
      · intro e he hmany
        rw [kindOf_error he] at hmany
        contradiction
    · exact Prog.Ensures.pure trivial
  · refine Prog.Ensures.raise fun _ => ?_
    obtain ⟨hmatch, hfound⟩ := h.current p (List.mem_cons_self ..)
    obtain ⟨hmatch', hfound'⟩ := h.current p' (List.mem_cons_of_mem _ (List.mem_cons_self ..))
    have hne : p.id ≠ p'.id := by
      intro hid
      apply (List.nodup_cons.mp h.nodup).1
      rw [hid]
      exact List.mem_cons_self ..
    exact ⟨p, Table.mem_of_find? hfound, p', Table.mem_of_find? hfound', hne, of_decide_eq_true hmatch,
      of_decide_eq_true hmatch'⟩

theorem applyEvent_finds_one (rawBody : String) (event : Webhooks.Event) (L : Session backend)
    (hfl : L.flushed = []) (hp : L.pending = []) :
    (applyEvent rawBody event).Ensures F L (Stop.Ends
      (fun e _ => e = .multipleResultsFound → ∃ eventId reference,
        eventKey event.eventId = .ok eventId ∧ event.pspReference = .str reference ∧
          Ambiguous F.hi reference)
      (fun _ _ => True)) := by
  unfold applyEvent
  refine ensures_ofExcept ?_ ?_
  · intro eventId hkey
    refine Prog.Ensures.select ?_
    intro s₀ hs₀
    cases hfind : (view s₀ L.flushed).webhookEvents.find? eventId with
    | some r => exact Prog.Ensures.pure trivial
    | none =>
      refine ensures_add (ensures_flush ?_ ?_)
      · intro hf
        split
        · refine ensures_ofExcept ?_ ?_
          · intro reference href
            refine (transition_finds_one event.eventType reference _ rfl).ends ?_ fun _ _ h => h
            intro e _ he hmany
            have hambiguous := he hmany
            simp only [Session.flushAll, Session.stage, Session.see, hfl, hp] at hambiguous
            exact ⟨eventId, reference, hkey, textParameter_ok href, hambiguous⟩
          · intro e he hmany
            rw [textParameter_error he] at hmany
            contradiction
        · exact Prog.Ensures.pure trivial
      · exact fun e _ he hmany => absurd hmany (plain_of_refused (refused_of_flushFails he))
  · intro e he hmany
    rcases eventKey_error he with rfl | ⟨c, rfl⟩ <;> contradiction

/-- A webhook finds more than one payment only if its reference belongs to more than one. -/
theorem webhook_finds_one (ext : Externals) (rawBody signature : String) :
    (program ext (.webhook rawBody signature)).Ensures F (.fresh backend) (Stop.Commits
      (fun e => e = .multipleResultsFound → Confused ext F.hi rawBody) (fun _ _ => True)) := by
  have hhandle : (handle ext rawBody signature).Ensures F (.fresh backend) (Stop.Ends
      (fun e _ => e = .multipleResultsFound → Confused ext F.hi rawBody) (fun _ _ => True)) := by
    have hplain : ∀ e : Exn, e ≠ .multipleResultsFound →
        e = .multipleResultsFound → Confused ext F.hi rawBody := fun _ hne hmany => absurd hmany hne
    unfold handle
    split
    · exact Prog.Ensures.raise (hplain _ (by simp))
    · refine ensures_ofExcept ?_ ?_
      · intro isValid _
        split
        · split
          · exact Prog.Ensures.raise (hplain _ (by simp))
          · rename_i data hdata
            refine ensures_uuid4 ?_
            intro i hi _
            refine ensures_ofExcept ?_ ?_
            · intro event hevent
              refine (applyEvent_finds_one rawBody event _ rfl rfl).ends ?_ fun _ _ h => h
              intro e _ he hmany
              obtain ⟨eventId, reference, hkey, href, hambiguous⟩ := he hmany
              exact ⟨i.str, event, eventId, reference, ⟨data, hdata, hevent, hkey⟩, href, hambiguous⟩
            · intro e he hmany
              rcases pythonic_of_parse e he with rfl | ⟨k, rfl⟩ | ⟨n, rfl⟩ <;> contradiction
        · exact Prog.Ensures.raise (hplain _ (by simp))
      · intro e he hmany
        rw [signature_error he] at hmany
        contradiction
  refine Prog.Ensures.bind hhandle (fun _ _ h => h) ?_
  intro _ L _
  refine Prog.Ensures.commitAll ?_ fun e _ he hmany =>
    absurd hmany (plain_of_refused (refused_of_flushFails he))
  refine fun _ => ⟨fun e he hmany => ?_, fun _ => trivial⟩
  obtain ⟨i, n, rfl⟩ := assertLedgerBalanced_error he
  contradiction

end Lookup

section Runs

variable {ext : Externals} {db : Database} {spent : List Uuid} {σ σ' : State} {l : Label backend Call}
  {P : Call → Prop} {rawBody signature : String}

theorem Ambiguous.of_kept {s s' : Database} {reference : String} (h : Ambiguous s reference)
    (hkept : ∀ p ∈ s.payments.rows, p.pspReference = some reference →
      ∃ q ∈ s'.payments.rows, q.id = p.id ∧ q.pspReference = some reference) :
    Ambiguous s' reference := by
  obtain ⟨p, hp, p', hp', hne, href, href'⟩ := h
  obtain ⟨q, hq, hid, hqref⟩ := hkept p hp href
  obtain ⟨q', hq', hid', hqref'⟩ := hkept p' hp' href'
  refine ⟨q, hq, q', hq', ?_, hqref, hqref'⟩
  rw [hid, hid']
  exact hne

theorem trace_of_raised {base : Program Reply} {trace : List (RowLocking.Event backend)} {e : Exn}
    (hs : Stage ext (.webhook rawBody signature) base trace) (hbase : base = .raise e) : trace = [] := by
  cases hs with
  | start => rfl
  | failed => rfl
  | returned => contradiction

/-- A step ends a webhook in this way only if its reference is ambiguous. -/
theorem confused_of_step (h : Running ext P anyKey σ) (h' : Running ext P anyKey σ')
    (hl : σ.step (program ext) l = some σ') {pid : ℕ} {q' : Process backend Call Reply}
    (hq' : σ'.procs pid = some q') (hcall : q'.call = .webhook rawBody signature)
    (hbase : q'.base = .raise .multipleResultsFound) :
    (∃ q, σ.procs pid = some q ∧ q.call = q'.call ∧ q.base = q'.base) ∨ Confused ext σ.db rawBody := by
  have hruns : ∀ (F : Frame backend) {L : Session backend}, F.hi = σ.db →
      (program ext (.webhook rawBody signature)).Runs F (.fresh backend)
        (.raised .multipleResultsFound L) → Confused ext σ.db rawBody := by
    intro F L hhi hr
    rw [← hhi]
    exact webhook_finds_one ext rawBody signature _ hr rfl
  have htrace : q'.trace = [] := by
    have hstage := h'.owned.stage pid q'.toHeader (System.toAtomic_heads hq')
    rw [hcall] at hstage
    exact trace_of_raised hstage hbase
  obtain ⟨act, hs⟩ := System.stepped_of_step hl
  by_cases hpid : pid = l.pid
  · subst hpid
    cases hs with
    | start pid c hnone =>
      obtain rfl := Option.some.inj ((System.procs_set_self ..).symm.trans hq')
      change c = .webhook rawBody signature at hcall
      subst hcall
      refine Or.inr (hruns (.alone σ.db []) (L := .fresh backend) rfl ?_)
      change program ext (.webhook rawBody signature) = .raise .multipleResultsFound at hbase
      rw [hbase]
      rfl
    | cancel pid q hq =>
      obtain rfl := Option.some.inj ((System.procs_set_self ..).symm.trans hq')
      have hcancelled := Prog.raise.inj hbase
      contradiction
    | deferred pid o q next e hq hprog hL hd =>
      obtain rfl := Option.some.inj ((System.procs_set_self ..).symm.trans hq')
      obtain rfl := Prog.raise.inj hbase
      obtain ⟨i, n, hunbalanced⟩ := assertLedgerBalanced_error hd
      contradiction
    | call pid o q query next hq | commit pid o q next hq =>
      obtain rfl := Option.some.inj ((System.procs_set_self ..).symm.trans hq')
      exact absurd htrace (List.append_ne_nil_of_right_ne_nil _ (by simp))
    | refused pid o q e L hq hlocal =>
      obtain rfl := Option.some.inj ((System.procs_set_self ..).symm.trans hq')
      obtain rfl := Prog.raise.inj hbase
      change q.call = .webhook rawBody signature at hcall
      have hskips := @skipsOnly_anyKey ext anyStep σ σ (.run pid o) .refl trivial
      have hr := System.runs_of_refused h.sound Older.refl hskips hq hlocal
      have hstage := h.owned.stage pid q.toHeader (System.toAtomic_heads hq)
      generalize hb : q.toHeader.base = base at hr hstage
      generalize q.toHeader.trace = trace at hstage
      rw [hcall] at hstage
      cases hstage with
      | start => exact Or.inr (hruns _ rfl hr)
      | failed c e =>
        left
        obtain ⟨rfl, -⟩ := (Stop.raised.inj hr)
        exact ⟨q, hq, rfl, hb⟩
      | returned => contradiction
    | advance pid o q prog L issued hq =>
      obtain rfl := Option.some.inj ((System.procs_set_self ..).symm.trans hq')
      exact Or.inl ⟨q, hq, rfl, rfl⟩
  · left
    rw [hs.procs_of_ne hpid] at hq'
    exact ⟨q', hq', rfl, rfl⟩

theorem confused_of_run (hpayments : db.payments.rows = [])
    (h : System.Run (program ext) anyStep (System.initial db spent) σ) :
    ∀ pid q rawBody signature, σ.procs pid = some q → q.call = .webhook rawBody signature →
      q.base = .raise .multipleResultsFound → Confused ext σ.db rawBody := by
  induction h with
  | refl =>
    intro pid q _ _ hq
    contradiction
  | @tail σ₁ σ₂ hrun hstep ih =>
    intro pid q rawBody signature hq hcall hbase
    have hstep' := hstep
    obtain ⟨l, hl, -⟩ := hstep
    have hconfused : Confused ext σ₁.db rawBody := by
      rcases confused_of_step (running_of_run hrun) (running_of_run (hrun.tail hstep')) hl hq hcall hbase with
        ⟨q₁, hq₁, hcall₁, hbase₁⟩ | h
      · exact ih pid q₁ rawBody signature hq₁ (hcall₁.trans hcall) (hbase₁.trans hbase)
      · exact h
    obtain ⟨fresh, event, eventId, reference, hdecodes, href, hambiguous⟩ := hconfused
    refine ⟨fresh, event, eventId, reference, hdecodes, href, hambiguous.of_kept ?_⟩
    intro p hp hpref
    exact reference_of_run hpayments hrun (.single hstep') hp hpref

/-- A payment that has a reference keeps it, whatever happens. A webhook fails with
`MultipleResultsFound` only if two payments have the reference of its event, and so they go on to
have it. -/
theorem references_kept (hpayments : db.payments.rows = [])
    (h : System.Run (program ext) anyStep (System.initial db spent) σ) :
    (∀ σ', System.Run (program ext) anyStep σ σ' → ∀ p ∈ σ.db.payments.rows, ∀ reference,
      p.pspReference = some reference →
        ∃ q ∈ σ'.db.payments.rows, q.id = p.id ∧ q.pspReference = some reference) ∧
    ∀ pid q rawBody signature, σ.procs pid = some q → q.call = .webhook rawBody signature →
      q.prog = .raise .multipleResultsFound → Confused ext σ.db rawBody := by
  refine ⟨fun σ' h' p hp reference href => reference_of_run hpayments h h' hp href, ?_⟩
  intro pid q rawBody signature hq hcall hprog
  have hbase := ((running_of_run h).sound.replayed pid q hq).raised _ hprog
  exact confused_of_run hpayments h pid q rawBody signature hq hcall hbase

/-- The body and the signature of a webhook. -/
def Call.webhook? : Call → Option (String × String)
  | .webhook rawBody signature => some (rawBody, signature)
  | _ => none

theorem Call.eq_webhook {c : Call} (h : c.webhook? = some (rawBody, signature)) :
    c = .webhook rawBody signature := by
  cases c with
  | webhook rawBody' signature' =>
    cases h
    rfl
  | _ => contradiction

/-- Two payments that wait with the same reference, and a webhook for it. -/
theorem references_kept_sample :
    ∃ σ q, System.Run (program sampleExternals) anyStep (System.initial sampleDatabase []) σ ∧
      σ.procs 2 = some q ∧ q.call = .webhook "ev" "sig" ∧ q.prog = .raise .multipleResultsFound ∧
      Confused sampleExternals σ.db "ev" := by
  obtain ⟨σ, hrun, hended⟩ : ∃ σ, System.Run (program sampleExternals) anyStep
      (System.initial sampleDatabase []) σ ∧
      (σ.procs 2).map (fun q => (q.call.webhook?, q.prog.error?)) =
        some (some ("ev", "sig"), some .multipleResultsFound) := by
    refine System.exists_run_of_exec (.start 0 (.create "key" (sampleRequest 3)) ::
      .start 1 (.create "other" (sampleRequest 3)) :: .start 2 (.webhook "ev" "sig") ::
        (sampleSteps 0 10 45 (.ok ⟨.pending, some "psp", none⟩) 0 ++
          sampleSteps 1 100 42 (.ok ⟨.pending, some "psp", none⟩) 0 ++
            sampleSteps 2 200 9 (.error "unused") 0)) ?_ ?_
    · decide +kernel
    · exact fun _ _ _ => trivial
  obtain ⟨q, hq, hpair⟩ := Option.map_eq_some_iff.mp hended
  obtain ⟨hwebhook, herror⟩ := Prod.mk.inj hpair
  have hcall := Call.eq_webhook hwebhook
  have hprog := Prog.eq_raise_of_error? herror
  exact ⟨σ, q, hrun, hq, hcall, hprog, (references_kept rfl hrun).2 2 q "ev" "sig" hq hcall hprog⟩

end Runs

end ApexPayments.Service
