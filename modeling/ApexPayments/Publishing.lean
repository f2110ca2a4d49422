import ApexPayments.Announcements
import ApexPayments.LockOrder

/-!
What the relay publishes. A run is taken together with the log of its drains: the rows that
they have published, in the order of the log. The log names each row once, and it names
the rows of the outbox that are published.
-/
namespace ApexPayments.Service

open Domain Store Ledger Payments Webhooks Relay RowLocking

section Effects

variable {F : Frame backend} {ext : Externals} {h : Head} {next : Program Reply}
  {L : Session backend} {s s' : Database}

/-- What a change of one payment or refund adds to the outbox. An outcome is announced of a
payment that the transaction has found. -/
def Enqueued (found : Database) (new : List Outbox) : Prop :=
  ∀ ev ∈ new, ev.publishedAt = none ∧
    (AnnouncesOutcome ev.eventType → (found.payments.find? ev.aggregateId).isSome)

/-- The outbox rows after a commit: a drain has published some, or the others have added some. -/
inductive Outboxes (F : Frame backend) (h : Head) (next : Program Reply) (L : Session backend) : Prop
  | enqueued (new : List Outbox) (hcall : ∀ b, h.call ≠ .drain b)
      (hrows : (view F.hi L.flushed).outbox.rows = F.hi.outbox.rows ++ new)
      (hnew : Enqueued F.hi new)
  | drained (b : ℕ) (evs : List Outbox) (t : Time) (hcall : h.call = .drain b) (ht : h.trace = [])
      (hd : Drains F b evs t next L)

theorem enqueued_nil : Enqueued s [] := fun _ h => absurd h List.not_mem_nil

theorem enqueued_event {t : Transfer} {txn : LedgerTransaction} {event : Outbox} {s₀ : Database}
    (ht : Transferred t txn event s₀ s')
    (hfound : AnnouncesOutcome t.eventType → (s.payments.find? t.reference).isSome) :
    Enqueued s [event] := by
  intro ev hev
  rw [List.mem_singleton.mp hev, ht.announced]
  exact ⟨rfl, hfound⟩

theorem enqueued_moved {used ids : List Uuid} {p q : Payment} (h : Moved used s p q ids s')
    (hfound : s.payments.find? p.id = some p) :
    ∃ new, s'.outbox.rows = s.outbox.rows ++ new ∧ Enqueued s new := by
  have hsome : (s.payments.find? p.id).isSome := by
    rw [hfound]
    rfl
  cases h with
  | settled r txn event _ ht he h =>
    have hrows := outbox_transferred h
    exact ⟨[event], hrows, enqueued_event h fun _ => hsome⟩
  | reversed txn event _ ht he h =>
    have hrows := outbox_transferred h
    exact ⟨[event], hrows, enqueued_event h fun _ => hsome⟩
  | awaiting r => exact ⟨[], (List.append_nil _).symm, enqueued_nil⟩

/-- A payment that changes keeps its place in the table. -/
theorem isSome_put {p q : Payment} (hfound : s.payments.find? p.id = some p) (hq : q.id = p.id)
    (id : Uuid) : ((s.payments.put q).find? id).isSome = (s.payments.find? id).isSome := by
  by_cases hid : id = q.id
  · rw [hid, s.payments.find?_put_self, hq, hfound]
    rfl
  · rw [s.payments.find?_put_of_ne q id hid]

theorem enqueued_reversedAll {ps : List Payment} {used used' : List Uuid}
    (h : ReversedAll ps s used s' used') :
    ∃ new, s'.outbox.rows = s.outbox.rows ++ new ∧ Enqueued s new := by
  induction h with
  | nil s used => exact ⟨[], (List.append_nil _).symm, enqueued_nil⟩
  | cons p ps s used ids s₁ s₂ used₂ found moved rest ih =>
    obtain ⟨new, hrows, hnew⟩ := enqueued_moved moved found
    obtain ⟨new', hrows', hnew'⟩ := ih
    refine ⟨new ++ new', ?_, ?_⟩
    · rw [hrows', hrows, List.append_assoc]
    · intro ev hev
      rcases List.mem_append.mp hev with hev | hev
      · exact hnew ev hev
      · refine ⟨(hnew' ev hev).1, fun hres => ?_⟩
        have hsome := (hnew' ev hev).2 hres
        rw [moved.same.payments] at hsome
        exact (isSome_put found (q := reversed p) rfl ev.aggregateId).symm.trans hsome

theorem enqueued_applied {event : Webhooks.Event} {used : List Uuid} (hs : s.payments = F.hi.payments)
    (ha : Applied F event s used L) :
    ∃ new, (F.working L).outbox.rows = s.outbox.rows ++ new ∧ Enqueued s new := by
  cases ha with
  | unreferenced hfalsy hwork hused =>
    rw [hwork]
    exact ⟨[], (List.append_nil _).symm, enqueued_nil⟩
  | looked reference store ps href hne hlook hsnap htrans =>
    generalize F.working L = s' at htrans ⊢
    generalize usedBy F L = used' at htrans
    have hfound : ∀ p ∈ ps, s.payments.find? p.id = some p := by
      intro p hp
      rw [hs]
      exact (hlook.current p hp).2
    cases htrans with
    | idle hidle => exact ⟨[], (List.append_nil _).symm, enqueued_nil⟩
    | captured p ids s' hps hst hkind hmoved | failed p ids s' hps hst hkind hmoved =>
      exact enqueued_moved hmoved (hfound p (hps ▸ List.mem_singleton_self p))

theorem outboxes_of_committed (hc : Committed ext F h next L) : Outboxes F h next L := by
  have hnothing : L.flushed = [] → (∀ b, h.call ≠ .drain b) → Outboxes F h next L := by
    intro hfl hcall
    refine .enqueued [] hcall ?_ enqueued_nil
    rw [hfl, List.append_nil]
    rfl
  cases hc with
  | replayed k req r resp hcall ht hr => exact hnothing hr.flushed (by simp [hcall])
  | opened k req p txn event hcall ht ho =>
    have hrows := outbox_transferred ho.effect
    exact .enqueued [event] (by simp [hcall]) hrows
      (enqueued_event ho.effect fun h => absurd h not_outcome_processing)
  | resolved k req p p' ws result hcall hws ht hr =>
    obtain ⟨ids, s₁, hmoved, -, heffect⟩ := hr.effect
    have hp' : p'.id = p.id := Table.key_of_find? hr.found
    obtain ⟨new, hrows, hnew⟩ := enqueued_moved hmoved (by rw [hp']; exact hr.found)
    refine .enqueued new (by simp [hcall]) ?_ hnew
    rcases heffect with ⟨s, -, -, hview⟩ | ⟨r, -, hview⟩
    · rw [hview]
      exact hrows
    · rw [hview]
      exact hrows
  | refundReplayed k id req hcall ht hr => exact hnothing hr.1 (by simp [hcall])
  | refunded k id req p r txn event hcall ht hr =>
    obtain ⟨s₁, htrans, hview⟩ := hr.effect
    have hrows := outbox_transferred htrans
    refine .enqueued [event] (by simp [hcall]) ?_
      (enqueued_event htrans fun h => absurd h not_outcome_completed)
    rw [hview]
    exact hrows
  | webhook rawBody signature event eventId i hcall ht hw hp =>
    rcases hw.effect with hfl | hrec
    · exact hnothing hfl (by simp [hcall])
    · obtain ⟨new, hrows, hnew⟩ := enqueued_applied
        (s := F.hi.put (.webhookEvent ⟨eventId, rawBody, .processed⟩)) rfl hrec.applied
      refine .enqueued new (by simp [hcall]) ?_ hnew
      rw [← Frame.working_of_pending L hp]
      exact hrows
  | expired timeoutMinutes ps hcall ht he =>
    obtain ⟨new, hrows, hnew⟩ := enqueued_reversedAll he.reversed
    exact .enqueued new (by simp [hcall]) hrows hnew
  | posted type referenceId postings txn hcall ht hp =>
    have helse := hp.posted.elsewhere
    unfold SameElsewhere at helse
    refine .enqueued [] (by simp [hcall]) ?_ enqueued_nil
    rw [helse, List.append_nil]
  | drained b evs t hcall ht hd => exact .drained b evs t hcall ht hd

end Effects

/-- No step has any condition to meet. -/
def anyStep (_ : State) (_ : Label backend Call) : Prop := True

section Log

variable {ext : Externals} {P : Call → Prop} {σ σ' σ₀ : State} {ok : State → Label backend Call → Prop}
  {log : List (ℕ × Outbox)} {c : Call} {pid : ℕ} {p p' : Process backend Call Reply}

/-- The outbox rows that statements update, in their order. -/
def updatedEvents (ws : List (Write backend)) : List Outbox := ws.filterMap fun w =>
  match w with
  | .update (.outbox ev) => some ev
  | _ => none

/-- What a call publishes by what it does: a drain publishes the rows that it updates. -/
def publications (c : Call) (es : List (RowLocking.Event backend)) : List Outbox :=
  match c with
  | .drain _ => es.flatMap fun e =>
      match e with
      | .committed ws => updatedEvents ws
      | .answered _ _ => []
  | _ => []

def publishedBy (p : Process backend Call Reply) : List Outbox := publications p.call p.trace

/-- What the process of the step has published by then but not before. -/
def newlyPublished (σ σ' : State) (pid : ℕ) : List (ℕ × Outbox) :=
  match σ.procs pid, σ'.procs pid with
  | some p, some p' => ((publishedBy p').drop (publishedBy p).length).map fun ev => (pid, ev)
  | _, _ => []

/-- A run and the log of its drains: the rows that they have published, each with the
drain, in the order in which the drains log them. -/
inductive Logged (ext : Externals) (ok : State → Label backend Call → Prop) (σ₀ : State) :
    State → List (ℕ × Outbox) → Prop
  | start : Logged ext ok σ₀ σ₀ []
  | step (σ : State) (log : List (ℕ × Outbox)) (l : Label backend Call) (σ' : State)
      (h : Logged ext ok σ₀ σ log) (hok : ok σ l) (hl : σ.step (program ext) l = some σ') :
      Logged ext ok σ₀ σ' (log ++ newlyPublished σ σ' l.pid)

theorem Logged.run (h : Logged ext ok σ₀ σ log) : System.Run (program ext) ok σ₀ σ := by
  induction h with
  | start => exact .refl
  | step σ log l σ' _ hok hl ih => exact ih.tail ⟨l, hl, hok⟩

/-- Every run has a log. -/
theorem logged_of_run (h : System.Run (program ext) ok σ₀ σ) : ∃ log, Logged ext ok σ₀ σ log := by
  induction h with
  | refl => exact ⟨[], .start⟩
  | tail _ hstep ih =>
    obtain ⟨log, hlog⟩ := ih
    obtain ⟨l, hl, hok⟩ := hstep
    exact ⟨_, .step _ log l _ hlog hok hl⟩

theorem updatedEvents_publishAll (t : Time) (evs : List Outbox) :
    updatedEvents (publishAll t evs) = evs.map (publish t) := by
  induction evs with
  | nil => rfl
  | cons ev evs ih => exact congrArg (publish t ev :: ·) ih

theorem publications_append (c : Call) (es es' : List (RowLocking.Event backend)) :
    publications c (es ++ es') = publications c es ++ publications c es' := by
  cases c with
  | drain b => exact List.flatMap_append
  | _ => rfl

theorem publications_nil (c : Call) : publications c [] = [] := by
  cases c <;> rfl

theorem publications_answered (c : Call) (q : backend.Query) (a : backend.Answer q) :
    publications c [.answered q a] = [] := by
  cases c <;> rfl

theorem publications_committed {ws : List (Write backend)} (hc : ∀ b, c ≠ .drain b) :
    publications c [.committed ws] = [] := by
  cases c with
  | drain b => exact absurd rfl (hc b)
  | _ => rfl

theorem publishedBy_append {es : List (RowLocking.Event backend)} (hcall : p'.call = p.call)
    (ht : p'.trace = p.trace ++ es) : publishedBy p' = publishedBy p ++ publications p.call es := by
  unfold publishedBy
  rw [hcall, ht, publications_append]

/-- What a step adds to the log is what it adds to the history of its process. -/
theorem newlyPublished_of_procs {es : List (RowLocking.Event backend)} (hp : σ.procs pid = some p)
    (hp' : σ'.procs pid = some p') (hcall : p'.call = p.call) (ht : p'.trace = p.trace ++ es) :
    newlyPublished σ σ' pid = (publications p.call es).map fun ev => (pid, ev) := by
  unfold newlyPublished
  rw [hp, hp']
  dsimp only
  rw [publishedBy_append hcall ht, List.drop_left]

theorem newlyPublished_commit (hp : σ.procs pid = some p) (next : Program Reply) :
    newlyPublished σ (σ.commit pid p next) pid =
      (publications p.call [.committed p.session.flushed]).map fun ev => (pid, ev) :=
  newlyPublished_of_procs hp (System.procs_set_self σ pid _) rfl rfl

/-- The commit of a drain logs its batch. -/
theorem newlyPublished_drained {b : ℕ} {next : Program Reply} {evs : List Outbox} {t : Time}
    {F : Frame backend} (hp : σ.procs pid = some p) (hcall : p.call = .drain b)
    (hdrains : Drains F b evs t next p.session) :
    newlyPublished σ (σ.commit pid p next) pid = evs.map fun ev => (pid, publish t ev) := by
  rw [newlyPublished_commit hp next, hcall, hdrains.flushed]
  change ((updatedEvents (publishAll t evs) ++ []).map fun ev => (pid, ev)) = _
  rw [List.append_nil, updatedEvents_publishAll, List.map_map]
  rfl

/-- The log names what the processes have published. -/
theorem mem_log_iff {db : Database} {spent : List Uuid}
    (h : Logged ext ok (System.initial db spent) σ log) (pid : ℕ) (ev : Outbox) :
    (pid, ev) ∈ log ↔ ∃ p, σ.procs pid = some p ∧ ev ∈ publishedBy p := by
  induction h with
  | start =>
    constructor
    · exact fun hmem => absurd hmem List.not_mem_nil
    · rintro ⟨p, hp, -⟩
      contradiction
  | step σ log l σ' _ _ hl ih =>
    obtain ⟨act, hs⟩ := System.stepped_of_step hl
    rw [List.mem_append, ih]
    by_cases hpid : pid = l.pid
    · subst hpid
      cases hprev : σ.procs l.pid with
      | none =>
        have hnone : newlyPublished σ σ' l.pid = [] := by
          unfold newlyPublished
          rw [hprev]
        rw [hnone]
        cases hs with
        | start pid c hp =>
          have hself := System.procs_set_self σ pid (.atBoundary ⟨c, σ.db, program ext c, []⟩)
          constructor
          · rintro (⟨p, hp', -⟩ | hmem)
            · contradiction
            · exact absurd hmem List.not_mem_nil
          · rintro ⟨p, hp', hev⟩
            obtain rfl := Option.some.inj (hself.symm.trans hp')
            change ev ∈ publications c [] at hev
            rw [publications_nil] at hev
            exact absurd hev List.not_mem_nil
        | cancel pid' p hp | call pid' o p query next hp | deferred pid' o p next e hp
        | refused pid' o p e L hp | advance pid' o p prog L issued hp | commit pid' o p next hp =>
          rw [Label.pid, hp] at hprev
          contradiction
      | some p =>
        obtain ⟨p', hp', es, ht⟩ := System.trace_of_stepped hs hprev
        have hcall := System.call_of_stepped hs hprev hp'
        rw [newlyPublished_of_procs hprev hp' hcall ht]
        simp only [hp', Option.some.injEq, exists_eq_left', publishedBy_append hcall ht,
          List.mem_append, List.mem_map, Prod.mk.injEq, true_and, exists_eq_right]
    · have hother : (pid, ev) ∉ newlyPublished σ σ' l.pid := by
        intro hmem
        unfold newlyPublished at hmem
        split at hmem
        · obtain ⟨e, -, hsame⟩ := List.mem_map.mp hmem
          exact hpid (Prod.mk.inj hsame).1.symm
        · exact absurd hmem List.not_mem_nil
      rw [hs.procs_of_ne hpid]
      simp only [hother, or_false]

/-- What one step does to the outbox and to the log. -/
inductive Publishes (σ σ' : State) (pid : ℕ) : Prop
  | added (new : List Outbox) (hnew : Enqueued σ.db new) (hlog : newlyPublished σ σ' pid = [])
      (hrows : σ'.db.outbox.rows = σ.db.outbox.rows ++ new)
  | drained (p : Process backend Call Reply) (b : ℕ) (next : Program Reply) (evs : List Outbox)
      (t : Time) (hp : σ.procs pid = some p) (hcall : p.call = .drain b) (hq : p.prog = .commit next)
      (hL : p.session.pending = []) (hd : Untripped σ.db p.session)
      (hdrains : Drains (σ.toAtomic.frame Older anyKey p.toHeader) b evs t next p.session)
      (hσ : σ' = σ.commit pid p next)

theorem publishes_of_step (h : Running ext P anyKey σ) {l : Label backend Call}
    (hl : σ.step (program ext) l = some σ') : Publishes σ σ' l.pid := by
  obtain ⟨act, hs⟩ := System.stepped_of_step hl
  have hsame : ∀ {p p' es}, σ.procs l.pid = some p → σ'.procs l.pid = some p' → σ'.db = σ.db →
      p'.call = p.call → p'.trace = p.trace ++ es → publications p.call es = [] →
      Publishes σ σ' l.pid := by
    intro p p' es hp hp' hdb hcall ht hnone
    refine .added [] enqueued_nil ?_ ?_
    · rw [newlyPublished_of_procs hp hp' hcall ht, hnone]
      rfl
    · rw [hdb, List.append_nil]
  cases hs with
  | start pid c hp =>
    refine .added [] enqueued_nil ?_ (List.append_nil _).symm
    unfold newlyPublished
    rw [show (Label.start pid c : Label backend Call).pid = pid from rfl, hp]
  | cancel pid p hp hv he | deferred pid o p next e hp hq hL hd | refused pid o p e L hp hl' =>
    exact hsame hp (System.procs_set_self σ pid _) rfl rfl rfl (publications_nil _)
  | advance pid o p prog L issued hp he hl' hi =>
    exact hsame hp (System.procs_set_self σ pid _) rfl rfl (List.append_nil _).symm
      (publications_nil p.call)
  | call pid o p q next hp hq hL =>
    exact hsame hp (System.procs_set_self σ pid _) rfl rfl rfl (publications_answered _ _ _)
  | commit pid o p next hp hq hL hd =>
    have hruns := System.runs_of_commit h.sound hp hq hL hd
    have hstage := h.owned.stage pid p.toHeader (System.toAtomic_heads hp)
    cases outboxes_of_committed (committed_of_stage hstage hruns) with
    | enqueued new hcall hrows hnew =>
      refine .added new hnew ?_ hrows
      refine (newlyPublished_commit hp next).trans ?_
      rw [publications_committed hcall]
      rfl
    | drained b evs t hcall ht hdrains => exact .drained p b next evs t hp hcall hq hL hd hdrains rfl

/-- The log names the published rows, each once. -/
structure Tallied (σ : State) (log : List (ℕ × Outbox)) : Prop where
  published : ∀ ev, ev ∈ σ.db.outbox.rows ∧ ev.publishedAt.isSome ↔ ∃ pid, (pid, ev) ∈ log
  once : (log.map fun e => e.2.id).Nodup

theorem Tallied.added (h : Tallied σ log) {new : List Outbox} (hnew : Enqueued σ.db new)
    (hrows : σ'.db.outbox.rows = σ.db.outbox.rows ++ new) : Tallied σ' log where
  published := by
    intro ev
    rw [← h.published ev, hrows, List.mem_append]
    constructor
    · rintro ⟨hev | hev, hsome⟩
      · exact ⟨hev, hsome⟩
      · rw [(hnew ev hev).1] at hsome
        contradiction
    · rintro ⟨hev, hsome⟩
      exact ⟨Or.inl hev, hsome⟩
  once := h.once

theorem Tallied.drained (h : Tallied σ log) {b : ℕ} {next : Program Reply} {evs : List Outbox}
    {t : Time} {F : Frame backend} (hF : F.hi = σ.db) (hp : σ.procs pid = some p)
    (hcall : p.call = .drain b) (hdrains : Drains F b evs t next p.session) :
    Tallied (σ.commit pid p next) (log ++ newlyPublished σ (σ.commit pid p next) pid) := by
  obtain ⟨s, order, hdrawn⟩ := hdrains.select
  have hnodup := hdrawn.nodup
  have hcurrent : ∀ ev ∈ evs, ev.publishedAt = none ∧ σ.db.outbox.find? ev.id = some ev :=
    hF ▸ hdrawn.current
  have hlog := newlyPublished_drained hp hcall hdrains
  have hdb : (σ.commit pid p next).db = view σ.db (publishAll t evs) := by
    rw [← hdrains.flushed]
    rfl
  -- a row of the batch has not been published before
  have hapart : ∀ ev ∈ σ.db.outbox.rows, ev.publishedAt.isSome → ev.id ∉ evs.map Outbox.id := by
    intro ev hev hsome hid
    obtain ⟨e, he, hsame⟩ := List.mem_map.mp hid
    obtain ⟨hnone, hfound⟩ := hcurrent e he
    rw [hsame, Table.find?_of_mem hev] at hfound
    cases hfound
    rw [hnone] at hsome
    contradiction
  refine ⟨?_, ?_⟩
  · intro ev
    rw [hdb, mem_publishAll hnodup, hlog]
    constructor
    · rintro ⟨⟨e, he, rfl⟩ | ⟨hev, -⟩, hsome⟩
      · exact ⟨pid, List.mem_append_right _ (List.mem_map_of_mem he)⟩
      · obtain ⟨pid', hmem⟩ := (h.published ev).mp ⟨hev, hsome⟩
        exact ⟨pid', List.mem_append_left _ hmem⟩
    · rintro ⟨pid', hmem⟩
      rcases List.mem_append.mp hmem with hmem | hmem
      · obtain ⟨hev, hsome⟩ := (h.published ev).mpr ⟨pid', hmem⟩
        exact ⟨Or.inr ⟨hev, hapart ev hev hsome⟩, hsome⟩
      · obtain ⟨e, he, hsame⟩ := List.mem_map.mp hmem
        cases hsame
        exact ⟨Or.inl ⟨e, he, rfl⟩, rfl⟩
  · rw [hlog, List.map_append, List.map_map]
    refine h.once.append hnodup ?_
    intro id hlogged hbatch
    obtain ⟨e, he, rfl⟩ := List.mem_map.mp hlogged
    obtain ⟨hev, hsome⟩ := (h.published e.2).mpr ⟨e.1, he⟩
    exact hapart e.2 hev hsome hbatch

theorem starts_of_run {σ₀ : State} (h : System.Run (program ext) ok σ₀ σ) :
    System.Run (program ext) (Starts fun _ => True) σ₀ σ := by
  refine h.mono ?_
  intro σ l _
  cases l <;> trivial

theorem running_of_run {db : Database} {spent : List Uuid}
    (h : System.Run (program ext) ok (System.initial db spent) σ) :
    Running ext (fun _ => True) anyKey σ :=
  (changes_of_run (running_initial db spent) (starts_of_run h)).1

theorem tallied_of_logged {db : Database} {spent : List Uuid}
    (hdb : ∀ ev ∈ db.outbox.rows, ev.publishedAt = none)
    (h : Logged ext ok (System.initial db spent) σ log) : Tallied σ log := by
  induction h with
  | start =>
    refine ⟨?_, List.nodup_nil⟩
    intro ev
    constructor
    · rintro ⟨hev, hsome⟩
      rw [hdb ev hev] at hsome
      contradiction
    · rintro ⟨pid, hmem⟩
      exact absurd hmem List.not_mem_nil
  | step σ log l σ' hlogged hok hl ih =>
    cases publishes_of_step (running_of_run hlogged.run) hl with
    | added new hnew hlog hrows =>
      rw [hlog, List.append_nil]
      exact ih.added hnew hrows
    | drained p b next evs t hp hcall hq hL hd hdrains hσ =>
      subst hσ
      exact ih.drained rfl hp hcall hdrains

end Log

section Returns

variable {ext : Externals} {P : Call → Prop} {σ σ' : State} {ok : State → Label backend Call → Prop}
  {db : Database} {spent : List Uuid}

/-- A drain that has committed returns the number of rows that it has published, and one that has
not committed has published none. -/
def Reports (p : Process backend Call Reply) (b : ℕ) : Prop :=
  p.trace = [] ∨ (publishedBy p).length ≤ b ∧ p.prog = pure (.drained (publishedBy p).length)

theorem Drains.length_le {F : Frame backend} {b : ℕ} {evs : List Outbox} {t : Time}
    {next : Program Reply} {L : Session backend} (h : Drains F b evs t next L) : evs.length ≤ b := by
  obtain ⟨s, order, hdrawn⟩ := h.select
  obtain ⟨passed, -, htaken⟩ := hdrawn.taken
  have hlength := congrArg List.length htaken
  rw [List.length_map, List.length_take] at hlength
  omega

/-- The batch of a drain is what it has published. -/
theorem publishedBy_drained {p : Process backend Call Reply} {F : Frame backend} {b : ℕ}
    {evs : List Outbox} {t : Time} {next : Program Reply} (hcall : p.call = .drain b)
    (ht : p.trace = []) (hd : Drains F b evs t next p.session) (s : Database) :
    publishedBy (.atBoundary (p.resume s next [.committed p.session.flushed])) =
      evs.map (publish t) := by
  change publications p.call (p.trace ++ [.committed p.session.flushed]) = _
  rw [ht, hcall, hd.flushed, ← updatedEvents_publishAll]
  exact List.append_nil _

/-- A drain that has not committed is at its start, or it has failed. -/
theorem base_of_drain (h : Running ext P anyKey σ) {pid b : ℕ} {p : Process backend Call Reply}
    (hp : σ.procs pid = some p) (hcall : p.call = .drain b) (ht : p.trace = []) :
    p.base = program ext (.drain b) ∨ ∃ e, p.base = .raise e := by
  have hstage := h.owned.stage pid p.toHeader (System.toAtomic_heads hp)
  obtain ⟨⟨c, since, base, trace⟩, prog, session⟩ := p
  obtain rfl : c = .drain b := hcall
  obtain rfl : trace = [] := ht
  cases hstage with
  | start c => exact Or.inl rfl
  | failed c e => exact Or.inr ⟨e, rfl⟩

theorem reports_of_step (h : Running ext P anyKey σ)
    (hr : ∀ pid p b, σ.procs pid = some p → p.call = .drain b → Reports p b) {l : Label backend Call}
    (hl : σ.step (program ext) l = some σ') :
    ∀ pid p b, σ'.procs pid = some p → p.call = .drain b → Reports p b := by
  obtain ⟨act, hs⟩ := System.stepped_of_step hl
  intro pid p' b hp' hcall'
  by_cases hpid : pid = l.pid
  · subst hpid
    -- a drain that takes a step has not returned, so it has not committed
    have hstart : ∀ p, σ.procs l.pid = some p → p.call = .drain b → p.trace = [] := by
      intro p hp hcall
      refine (hr l.pid p b hp hcall).resolve_right fun hdone => ?_
      exact hs.ne_of_finished hp (Or.inl ⟨_, hdone.2⟩) rfl
    cases hs with
    | start pid c hnone =>
      obtain rfl := Option.some.inj ((System.procs_set_self σ pid _).symm.trans hp')
      exact Or.inl rfl
    | cancel pid p hp | deferred pid o p next e hp | refused pid o p e L hp =>
      obtain rfl := Option.some.inj ((System.procs_set_self σ pid _).symm.trans hp')
      exact Or.inl ((List.append_nil _).trans (hstart p hp hcall'))
    | advance pid o p prog L issued hp =>
      obtain rfl := Option.some.inj ((System.procs_set_self σ pid _).symm.trans hp')
      exact Or.inl (hstart p hp hcall')
    | call pid o p query next hp hprog hL =>
      obtain rfl := Option.some.inj ((System.procs_set_self σ pid _).symm.trans hp')
      exfalso
      have hruns := runs_of_replay (h.sound.replayed pid p hp).replay
        (o := .calling query next p.session) (by rw [hprog]; rfl)
      rcases base_of_drain h hp hcall' (hstart p hp hcall') with hbase | ⟨e, hbase⟩
      · rw [hbase] at hruns
        exact drain_ensures ext b _ hruns
      · rw [hbase] at hruns
        contradiction
    | commit pid o p next hp hprog hL hd =>
      obtain rfl := Option.some.inj ((System.procs_set_self σ pid _).symm.trans hp')
      have hruns := System.runs_of_commit h.sound hp hprog hL hd
      have hstage := h.owned.stage pid p.toHeader (System.toAtomic_heads hp)
      cases outboxes_of_committed (committed_of_stage hstage hruns) with
      | enqueued new hcall hrows hnew => exact absurd hcall' (hcall b)
      | drained b' evs t hcall ht hdrains =>
        obtain rfl : b' = b := Call.drain.inj (hcall.symm.trans hcall')
        have hpublished := publishedBy_drained hcall ht hdrains (view σ.db p.session.flushed)
        have hlength := (congrArg List.length hpublished).trans (List.length_map (publish t))
        refine Or.inr ⟨?_, ?_⟩
        · rw [hlength]
          exact hdrains.length_le
        · rw [hlength]
          exact hdrains.next
  · rw [hs.procs_of_ne hpid] at hp'
    exact hr pid p' b hp' hcall'

theorem reports_of_run (h : System.Run (program ext) ok (System.initial db spent) σ) :
    ∀ pid p b, σ.procs pid = some p → p.call = .drain b → Reports p b := by
  induction h with
  | refl =>
    intro pid p b hp
    contradiction
  | @tail σ₁ σ₂ hrun hstep ih =>
    obtain ⟨l, hl, -⟩ := hstep
    exact reports_of_step (running_of_run hrun) ih hl

end Returns

end ApexPayments.Service
