import ApexPayments.NextDrain
import ApexPayments.Heralds

/-!
The order in which one worker publishes. The writers commit in any order, but the event that opens
a payment is committed before the transaction that stages an outcome of it has locked the payment.
So it has the earlier creation time, and a drain that takes the later event has taken it first.
-/
namespace ApexPayments.Service

open Domain Store Ledger Payments Relay RowLocking Heralds

section Rows

variable {s s' : Database} {ev ev' first : Outbox} {rows new : List Outbox}

/-- The event needs another one before it. -/
def IsOutcome (ev : Outbox) : Prop := AnnouncesOutcome ev.eventType

/-- The event that opens the payment of another. -/
def OpensPayment (first ev : Outbox) : Prop :=
  first.aggregateId = ev.aggregateId ∧ first.eventType = "payment.processing"

/-- It has been created earlier, too. -/
def OpensBefore (first ev : Outbox) : Prop := OpensPayment first ev ∧ first.createdAt < ev.createdAt

/-- The outbox rows of each payment come in order, in place and in time. -/
def Sequenced (rows : List Outbox) : Prop := Heralded IsOutcome OpensBefore rows

theorem isOutcome_same (h : SameEvent ev ev') : IsOutcome ev' ↔ IsOutcome ev := by
  unfold IsOutcome
  rw [h.content]

theorem opensBefore_same {first' : Outbox} (h : SameEvent first first') (h' : SameEvent ev ev')
    (hopens : OpensBefore first ev) : OpensBefore first' ev' := by
  unfold OpensBefore OpensPayment at hopens ⊢
  rw [h.content, h'.content]
  exact hopens

/-- Rows that keep their events stay in order, and new ones may come behind what opens them. -/
theorem Sequenced.extended {f : Outbox → Outbox} (h : Sequenced rows)
    (hf : ∀ ev ∈ rows, SameEvent ev (f ev))
    (hnew : ∀ ev ∈ new, IsOutcome ev → ∃ first ∈ rows, OpensBefore first ev) :
    Sequenced (rows.map f ++ new) := by
  refine Heralded.append (h.map ?_ ?_) ?_
  · exact fun ev hev hout => (isOutcome_same (hf ev hev)).mp hout
  · exact fun first hfirst ev hev hopens => opensBefore_same (hf first hfirst) (hf ev hev) hopens
  · intro front ev rest hsplit hout
    have hev : ev ∈ new := by
      rw [hsplit]
      exact List.mem_append_right _ (List.mem_cons_self ..)
    obtain ⟨first, hfirst, hopens⟩ := hnew ev hev hout
    refine Or.inl ⟨f first, List.mem_map_of_mem hfirst, ?_⟩
    exact opensBefore_same (hf first hfirst) (.refl ev) hopens

/-- Publishing changes nothing of a row but the time of its publication. -/
theorem outbox_publishAll {t : Time} {evs : List Outbox} (hnodup : (evs.map Outbox.id).Nodup)
    (hcurrent : ∀ ev ∈ evs, ev.publishedAt = none ∧ s.outbox.find? ev.id = some ev) :
    ∃ f : Outbox → Outbox, (view s (publishAll t evs)).outbox.rows = s.outbox.rows.map f ∧
      ∀ ev ∈ s.outbox.rows, SameEvent ev (f ev) := by
  refine publishAll_induction (R := fun s s' => ∃ f : Outbox → Outbox,
    s'.outbox.rows = s.outbox.rows.map f ∧ ∀ ev ∈ s.outbox.rows, SameEvent ev (f ev))
    ?_ ?_ t ?_ hnodup hcurrent
  · exact fun s => ⟨fun ev => ev, (List.map_id' _).symm, fun ev _ => .refl ev⟩
  · rintro s s' s'' ⟨f, hf, hsame⟩ ⟨g, hg, hsame'⟩
    refine ⟨g ∘ f, ?_, ?_⟩
    · rw [hg, hf, List.map_map]
    · intro ev hev
      apply (hsame ev hev).trans
      apply hsame' (f ev)
      rw [hf]
      exact List.mem_map_of_mem hev
  · intro s ev hfound hnew
    refine ⟨_, s.outbox.rows_put_old (r := publish t ev) hfound, fun x hx => ?_⟩
    by_cases hid : x.id = ev.id
    · rw [if_pos (show x.id = (publish t ev).id from hid),
        Table.eq_of_key_eq hx (Table.mem_of_find? hfound) hid]
      exact sameEvent_publish t hnew
    · rw [if_neg (show x.id ≠ (publish t ev).id from hid)]
      exact .refl x

end Rows

section Writers

variable {ext : Externals} {db : Database} {spent : List Uuid} {s : Database} {σ σ' : State}
  {pid : ℕ} {p : Process backend Call Reply} {L : Session backend}

/-- A row is created later than the rows that are committed. -/
def CreationOrder (σ : State) (l : Label backend Call) : Prop :=
  ∀ pid o p next ev, l = .run pid o → σ.procs pid = some p →
    p.prog = .stage (.insert (.outbox ev)) next →
      ∀ first ∈ σ.db.outbox.rows, first.createdAt < ev.createdAt

/-- What opens the payment of an outcome that is staged is committed already. -/
def Dated (s : Database) (L : Session backend) : Prop :=
  ∀ w ∈ L.flushed ++ L.pending, ∀ ev, w.row = .outbox ev → IsOutcome ev →
    .payment ev.aggregateId ∈ L.held ∧ ((s.payments.find? ev.aggregateId).isSome →
      ∃ first ∈ s.outbox.rows, OpensBefore first ev)

theorem dated_fresh (s : Database) : Dated s (.fresh backend) := fun _ hw =>
  absurd hw List.not_mem_nil

/-- The events of the outbox are in order, and so are those that are being written. -/
structure Chronological (σ : State) : Prop where
  rows : Sequenced σ.db.outbox.rows
  dated : ∀ pid p, σ.procs pid = some p → (∀ b, p.call ≠ .drain b) → Dated σ.db p.session

/-- A payment has been opened by an event. -/
theorem exists_opening {s₀ : Database} {used : List Uuid} (h : Announcements s₀ s used) {id : Uuid}
    (hfound : (s.payments.find? id).isSome) :
    ∃ first ∈ s.outbox.rows, first.aggregateId = id ∧ first.eventType = "payment.processing" := by
  obtain ⟨p, hp⟩ := Option.isSome_iff_exists.mp hfound
  have hid : p.id = id := Table.key_of_find? hp
  have hevents := h.events p (Table.mem_of_find? hp)
  have hmem : "payment.processing" ∈ eventsOf s p.id := by
    unfold expectedEvents at hevents
    cases hst : p.status with
    | processing | authorized | succeeded | refunded | failed =>
      rw [hst] at hevents
      rw [Option.some.inj hevents]
      exact List.mem_cons_self ..
    | _ =>
      rw [hst] at hevents
      contradiction
  unfold eventsOf at hmem
  obtain ⟨first, hfirst, htype⟩ := List.mem_map.mp hmem
  obtain ⟨hrow, hagg⟩ := List.mem_filter.mp hfirst
  exact ⟨first, hrow, (of_decide_eq_true hagg).trans hid, htype⟩

/-- What a step makes of the outbox rows: they keep their events, and those that a commit adds have
been written by it. -/
theorem rows_of_step (h : Running ext (fun _ => True) anyKey σ) {l : Label backend Call}
    (hl : σ.step (program ext) l = some σ') : ∃ (f : Outbox → Outbox) (new : List Outbox),
      σ'.db.outbox.rows = σ.db.outbox.rows.map f ++ new ∧
      (∀ ev ∈ σ.db.outbox.rows, SameEvent ev (f ev)) ∧
      (new = [] ∨ ∃ p, σ.procs l.pid = some p ∧ (∀ b, p.call ≠ .drain b) ∧
        Enqueued σ.db new ∧ ∀ ev ∈ new, ∃ w ∈ p.session.flushed, w.row = .outbox ev) := by
  rcases db_of_step h hl with hdb | ⟨pid, o, p, next, rfl, hp, -, -, hc, hdb⟩
  · refine ⟨fun ev => ev, [], ?_, fun ev _ => .refl ev, Or.inl rfl⟩
    rw [hdb, List.map_id', List.append_nil]
  · cases outboxes_of_committed hc with
    | enqueued new hcall hrows hnew =>
      change (view σ.db p.session.flushed).outbox.rows = σ.db.outbox.rows ++ new at hrows
      refine ⟨fun ev => ev, new, ?_, fun ev _ => .refl ev, Or.inr ⟨p, hp, hcall, hnew, ?_⟩⟩
      · rw [hdb, List.map_id', hrows]
      · intro ev hev
        -- the identifier is not among the old rows, so the row was written
        have hnodup := (view σ.db p.session.flushed).outbox.nodup
        rw [hrows, List.map_append] at hnodup
        have hmem : ev ∈ (view σ.db p.session.flushed).outbox.rows := by
          rw [hrows]
          exact List.mem_append_right _ hev
        have hget : backend.get (view σ.db p.session.flushed) (.outbox ev.id) = some (.outbox ev) :=
          congrArg (Option.map Row.outbox) (Table.find?_of_mem hmem)
        refine (get_view_cases hget).resolve_left fun hold => ?_
        obtain ⟨e, hfound, he⟩ := Option.map_eq_some_iff.mp hold
        cases he
        exact List.disjoint_of_nodup_append hnodup
          (List.mem_map_of_mem (Table.mem_of_find? hfound)) (List.mem_map_of_mem hev)
    | drained b evs t hcall ht hd =>
      obtain ⟨s, order, hdrawn⟩ := hd.select
      obtain ⟨f, hf, hsame⟩ := outbox_publishAll (t := t) hdrawn.nodup hdrawn.current
      refine ⟨f, [], ?_, hsame, Or.inl rfl⟩
      rw [hdb, hd.flushed, List.append_nil]
      exact hf

/-- What opens a row is kept by every step. -/
theorem opening_of_step (h : Running ext (fun _ => True) anyKey σ) {l : Label backend Call}
    (hl : σ.step (program ext) l = some σ') {ev : Outbox}
    (hfirst : ∃ first ∈ σ.db.outbox.rows, OpensBefore first ev) :
    ∃ first ∈ σ'.db.outbox.rows, OpensBefore first ev := by
  obtain ⟨f, new, hrows, hsame, -⟩ := rows_of_step h hl
  obtain ⟨first, hmem, hopens⟩ := hfirst
  refine ⟨f first, ?_, opensBefore_same (hsame first hmem) (.refl ev) hopens⟩
  rw [hrows]
  exact List.mem_append_left _ (List.mem_map_of_mem hmem)

/-- The rows stay in order: what a commit adds has been dated. -/
theorem Chronological.rows_step (h : Chronological σ) (hrunning : Running ext (fun _ => True) anyKey σ)
    {l : Label backend Call} (hl : σ.step (program ext) l = some σ') : Sequenced σ'.db.outbox.rows := by
  obtain ⟨f, new, hrows, hsame, hnew⟩ := rows_of_step hrunning hl
  rw [hrows]
  refine h.rows.extended hsame ?_
  intro ev hev hout
  rcases hnew with rfl | ⟨p, hp, hcall, hqueued, hwritten⟩
  · exact absurd hev List.not_mem_nil
  · obtain ⟨w, hw, hrow⟩ := hwritten ev hev
    have hdated := h.dated l.pid p hp hcall w (List.mem_append_left _ hw) ev hrow hout
    exact hdated.2 ((hqueued ev hev).2 hout)

/-- A row that is staged is dated, since its payment is held. -/
theorem dated_stage {s₀ : Database} {used : List Uuid} (h : Dated s L)
    (hann : Announcements s₀ s used) {w : Write backend}
    (hw : (orderly False False).stages L.held w)
    (horder : ∀ ev, w = .insert (.outbox ev) → ∀ first ∈ s.outbox.rows, first.createdAt < ev.createdAt) :
    Dated s (L.stage w) := by
  intro v hv ev hev hout
  rcases List.mem_append.mp hv with hv | hv
  · exact h v (List.mem_append_left _ hv) ev hev hout
  · rcases List.mem_append.mp hv with hv | hv
    · exact h v (List.mem_append_right _ hv) ev hev hout
    · rw [List.mem_singleton.mp hv] at hev
      obtain ⟨hinsert, hheld⟩ := hw ev hev
      refine ⟨hheld hout, fun hfound => ?_⟩
      obtain ⟨first, hfirst, hagg, htype⟩ := exists_opening hann hfound
      exact ⟨first, hfirst, ⟨hagg, htype⟩, horder ev hinsert first hfirst⟩

/-- A step of another process: it does not change the payments that are held. -/
theorem dated_others (h : Dated σ.db p.session) (hrunning : Running ext (fun _ => True) anyKey σ)
    {l : Label backend Call} (hl : σ.step (program ext) l = some σ') (hp : σ.procs pid = some p)
    (hne : pid ≠ l.pid) : Dated σ'.db p.session := by
  obtain ⟨act, hs⟩ := System.stepped_of_step hl
  intro w hw ev hev hout
  obtain ⟨hheld, hopened⟩ := h w hw ev hev hout
  refine ⟨hheld, fun hfound => opening_of_step hrunning hl (hopened ?_)⟩
  have hsame := System.get_of_held hrunning.sound hs hp hne hheld
  have hmap : (σ'.db.payments.find? ev.aggregateId).map Row.payment =
      (σ.db.payments.find? ev.aggregateId).map Row.payment := hsame
  have hsome := congrArg Option.isSome hmap
  rw [Option.isSome_map, Option.isSome_map] at hsome
  rw [← hsome]
  exact hfound

/-- A step of the process itself. -/
theorem dated_self {s₀ : Database} {used : List Uuid} (h : Chronological σ)
    (hann : Announcements s₀ σ.db used) {l : Label backend Call}
    (hl : σ.step (program ext) l = some σ') (horder : CreationOrder σ l)
    (hobeys : ∀ p, σ.procs l.pid = some p → (∀ b, p.call ≠ .drain b) →
      p.prog.Obeys (orderly False False) (fun _ _ _ => True) p.session.held p.session.pending)
    (hp : σ'.procs l.pid = some p) (hcall : ∀ b, p.call ≠ .drain b) : Dated σ'.db p.session := by
  obtain ⟨act, hs⟩ := System.stepped_of_step hl
  cases hs with
  | start pid c hnone =>
    obtain rfl := Option.some.inj ((System.procs_set_self σ pid _).symm.trans hp)
    exact dated_fresh _
  | cancel pid q hq | call pid o q query next hq | deferred pid o q next e hq
  | refused pid o q e L hq | commit pid o q next hq =>
    obtain rfl := Option.some.inj ((System.procs_set_self σ pid _).symm.trans hp)
    exact dated_fresh _
  | advance pid o q prog L issued hq he hl' hi =>
    obtain rfl := Option.some.inj ((System.procs_set_self σ pid _).symm.trans hp)
    have hdated := h.dated pid q hq hcall
    obtain ⟨hheld, hwrites⟩ := localStep_writes hl'
    rcases hwrites with hsame | ⟨w, next, hprog, rfl⟩
    · intro w hw ev hev hout
      change w ∈ L.flushed ++ L.pending at hw
      rw [hsame] at hw
      obtain ⟨hk, hopened⟩ := hdated w hw ev hev hout
      exact ⟨hheld _ hk, hopened⟩
    · have hstages := hobeys q hq hcall
      rw [hprog] at hstages
      refine dated_stage hdated hann hstages.1 ?_
      rintro ev rfl
      exact horder pid o q next ev rfl hq hprog

/-- The writers' runs keep the events in order. -/
theorem chronological_of_run {ok : State → Label backend Call → Prop} (hpayments : db.payments.rows = [])
    (hentries : EntriesKnown db)
    (hrefunds : ∀ r ∈ db.refunds.rows, (db.payments.find? r.paymentId).isSome)
    (houtbox : db.outbox.rows = []) (hspent : ReferencesUsed db spent)
    (hstarts : ∀ σ l, ok σ l → Starts Call.isService σ l) (horder : ∀ σ l, ok σ l → CreationOrder σ l)
    (h : System.Run (program ext) ok (System.initial db spent) σ) : Chronological σ := by
  induction h with
  | refl =>
    refine ⟨?_, ?_⟩
    · change Sequenced db.outbox.rows
      rw [houtbox]
      exact heralded_nil
    · intro pid p hp
      contradiction
  | @tail σ₁ σ₂ hrun hstep ih =>
    obtain ⟨l, hl, hok⟩ := hstep
    have hann := announcements_of_run hpayments hentries hrefunds houtbox hspent
      (System.Run.mono hrun hstarts)
    have hrunning := running_of_run hrun
    refine ⟨ih.rows_step hrunning hl, fun pid p hp hcall => ?_⟩
    by_cases hpid : pid = l.pid
    · subst hpid
      refine dated_self ih hann hl (horder _ l hok) ?_ hp hcall
      intro q hq hqcall
      exact (System.disciplined_of_run (D := fun c => ∀ n, c ≠ .drain n)
        (orderly False False).keeps_true (fun c hc => obeys_program ext hc fun hf => hf.elim)
        (fun _ _ _ _ _ _ _ _ _ _ _ _ _ _ hf => hf.elim) hrun l.pid q hq hqcall).obeys
    · obtain ⟨act, hs⟩ := System.stepped_of_step hl
      rw [hs.procs_of_ne hpid] at hp
      exact dated_others (ih.dated pid p hp hcall) hrunning hl hp hpid

end Writers

section Worker

variable {ext : Externals} {db : Database} {spent : List Uuid} {σ σ' : State} {pid b : ℕ}
  {p : Process backend Call Reply} {ok : State → Label backend Call → Prop}
  {log : List (ℕ × Outbox)} {evs : List Outbox} {s : Database}

/-- There is one relay worker: it starts a drain when its last one has ended. -/
def SingleWorker (σ : State) (l : Label backend Call) : Prop :=
  ∀ pid b, l = .start pid (.drain b) → ∀ pid' p b', σ.procs pid' = some p → p.call = .drain b' →
    p.Finished

/-- A drain at work: nothing was held when it started, and no other drain has taken a step since. -/
def Alone (ext : Externals) (db : Database) (spent : List Uuid) (pid : ℕ) (σ : State) : Prop :=
  ∃ σ₁, System.Run (program ext) anyStep (System.initial db spent) σ₁ ∧ σ₁.procs pid = none ∧
    Unheld σ₁ ∧ System.Run (program ext) (SoleDrain pid) σ₁ σ

/-- The worker has at most one drain at work. -/
structure Working (ext : Externals) (db : Database) (spent : List Uuid) (σ : State) : Prop where
  alone : ∀ pid p b, σ.procs pid = some p → p.call = .drain b → ¬ p.Finished →
    Alone ext db spent pid σ
  one : ∀ pid pid' p p' b b', σ.procs pid = some p → p.call = .drain b → ¬ p.Finished →
    σ.procs pid' = some p' → p'.call = .drain b' → ¬ p'.Finished → pid' = pid

/-- A drain that is at work after a step has just started, or was at work before. -/
theorem drain_of_step {l : Label backend Call} (hl : σ.step (program ext) l = some σ')
    (hp : σ'.procs pid = some p) (hcall : p.call = .drain b) (hwork : ¬ p.Finished) :
    l = .start pid (.drain b) ∧ σ.procs pid = none ∨
      ∃ q, σ.procs pid = some q ∧ q.call = .drain b ∧ ¬ q.Finished := by
  obtain ⟨act, hs⟩ := System.stepped_of_step hl
  by_cases hpid : pid = l.pid
  · subst hpid
    cases hq : σ.procs l.pid with
    | none =>
      cases hs with
      | start pid c hnone =>
        obtain rfl := Option.some.inj ((System.procs_set_self σ pid _).symm.trans hp)
        obtain rfl : c = .drain b := hcall
        exact Or.inl ⟨rfl, rfl⟩
      | cancel pid q hp' | call pid o q query next hp' | deferred pid o q next e hp'
      | refused pid o q e L hp' | advance pid o q prog L issued hp' | commit pid o q next hp' =>
        rw [Label.pid, hp'] at hq
        contradiction
    | some q =>
      refine Or.inr ⟨q, rfl, ?_, fun hf => hs.ne_of_finished hq hf rfl⟩
      exact (System.call_of_stepped hs hq hp).symm.trans hcall
  · rw [hs.procs_of_ne hpid] at hp
    exact Or.inr ⟨p, hp, hcall, hwork⟩

theorem Working.step (h : Working ext db spent σ)
    (hreached : System.Run (program ext) anyStep (System.initial db spent) σ)
    {l : Label backend Call} (hl : σ.step (program ext) l = some σ') (hone : SingleWorker σ l) :
    Working ext db spent σ' := by
  obtain ⟨act, hs⟩ := System.stepped_of_step hl
  refine ⟨?_, ?_⟩
  · intro pid p b hp hcall hwork
    rcases drain_of_step hl hp hcall hwork with ⟨rfl, hnone⟩ | ⟨q, hq, hqcall, hqwork⟩
    · refine ⟨σ, hreached, hnone, ?_, .single ⟨_, hl, Or.inl rfl⟩⟩
      exact unheld_of_finished (running_of_run hreached) (hone pid b rfl)
    · obtain ⟨σ₁, hrun₁, hnone, hheld, hrun⟩ := h.alone pid q b hq hqcall hqwork
      refine ⟨σ₁, hrun₁, hnone, hheld, hrun.tail ⟨l, hl, ?_⟩⟩
      by_cases hpid : l.pid = pid
      · exact Or.inl hpid
      · refine Or.inr fun q' b' hq' hcall' => ?_
        refine hpid (h.one pid l.pid q q' b b' hq hqcall hqwork hq' hcall' fun hf => ?_)
        exact hs.ne_of_finished hq' hf rfl
  · intro pid pid' p p' b b' hp hcall hwork hp' hcall' hwork'
    rcases drain_of_step hl hp hcall hwork with ⟨rfl, hnone⟩ | ⟨q, hq, hqcall, hqwork⟩
    · rcases drain_of_step hl hp' hcall' hwork' with ⟨hsame, -⟩ | ⟨q', hq', hqcall', hqwork'⟩
      · exact (Label.start.inj hsame).1.symm
      · exact absurd (hone pid b rfl pid' q' b' hq' hqcall') hqwork'
    · rcases drain_of_step hl hp' hcall' hwork' with ⟨rfl, -⟩ | ⟨q', hq', hqcall', hqwork'⟩
      · exact absurd (hone pid' b' rfl pid q b hq hqcall) hqwork
      · exact h.one pid pid' q q' b b' hq hqcall hqwork hq' hqcall' hqwork'

theorem working_of_run (hok : ∀ σ l, ok σ l → SingleWorker σ l)
    (h : System.Run (program ext) ok (System.initial db spent) σ) : Working ext db spent σ := by
  induction h with
  | refl =>
    refine ⟨?_, ?_⟩
    · intro pid p b hp
      contradiction
    · intro pid pid' p p' b b' hp
      contradiction
  | @tail σ₁ σ₂ hrun hstep ih =>
    obtain ⟨l, hl, hstepok⟩ := hstep
    exact ih.step (System.Run.mono hrun fun _ _ _ => trivial) hl (hok _ l hstepok)

/-- What a drain of the worker publishes when it commits: the first rows of a store that it has
seen. -/
theorem Alone.drains (h : Alone ext db spent pid σ) {next : Program Reply}
    (hp : σ.procs pid = some p) (hcall : p.call = .drain b) (hq : p.prog = .commit next)
    (hL : p.session.pending = []) (hd : Untripped σ.db p.session) :
    ∃ F evs t s, Drains F b evs t next p.session ∧ F.hi = σ.db ∧ Growing s σ.db ∧
      ∃ order : List Uuid, order.Perm ((unpublished s).map Outbox.id) ∧
        evs = (byCreation (unpublished s) order).take b := by
  obtain ⟨σ₁, hrun₁, hnone, hheld, hrun⟩ := h
  obtain ⟨hdraining, -⟩ := draining_of_run True hrun₁ hnone
    (fun _ _ hok => ⟨hok, fun _ _ => trivial⟩) hrun
  cases hdraining with
  | waiting hnone' hgrow =>
    rw [hnone'] at hp
    contradiction
  | busy q b' hq' hcall' hbase ht hsince hr =>
    obtain rfl := Option.some.inj (hq'.symm.trans hp)
    obtain rfl : b' = b := Call.drain.inj (hcall'.symm.trans hcall)
    have hruns := hr.runs_commit hq hL hd
    rw [hbase] at hruns
    obtain ⟨evs, t, hdrains⟩ := drain_ensures ext b' _ hruns
    obtain ⟨s, order, hdrawn⟩ := hdrains.select
    obtain ⟨htook, hgrow⟩ := took_of_drawn hsince hdrawn
    exact ⟨_, evs, t, s, hdrains, rfl, hgrow, htook.first_of_unheld hheld⟩
  | failed q b' e hq' hcall' hprog hfaults =>
    obtain rfl := Option.some.inj (hq'.symm.trans hp)
    rw [hprog] at hq
    contradiction
  | done q b' s hi evs new t hq' hcall' hprog hbatch hpublished hrows =>
    obtain rfl := Option.some.inj (hq'.symm.trans hp)
    rw [hprog] at hq
    contradiction
  | other q hq' hcall' =>
    obtain rfl := Option.some.inj (hq'.symm.trans hp)
    exact absurd hcall (hcall' b)

/-- The log of the relay: what opens a payment comes before an outcome of it. -/
def Delivered (log : List (ℕ × Outbox)) : Prop :=
  Heralded (fun e : ℕ × Outbox => IsOutcome e.2) (fun f e => OpensPayment f.2 e.2) log

/-- A drain takes an outcome only behind the event that opens the payment, unless that one has been
published already. -/
theorem Delivered.drained (h : Delivered log) (hordered : Chronological σ) (htallied : Tallied σ log)
    (hgrow : Growing s σ.db) {order : List Uuid} (horder : order.Perm ((unpublished s).map Outbox.id))
    (hevs : evs = (byCreation (unpublished s) order).take b) (t : Time) :
    Delivered (log ++ evs.map fun ev => (pid, publish t ev)) := by
  refine Heralded.append h ?_
  intro front e rest hsplit hout
  obtain ⟨front', rest', hfront, rfl, hrest⟩ := List.map_eq_append_iff.mp hsplit
  obtain ⟨ev, rest'', rfl, rfl, rfl⟩ := List.map_eq_cons_iff.mp hrest
  -- the query has returned the batch and what it has left behind, in order
  have hfound : byCreation (unpublished s) order =
      front' ++ ev :: (rest'' ++ (byCreation (unpublished s) order).drop b) := by
    rw [← List.cons_append, ← List.append_assoc, ← hfront, hevs, List.take_append_drop]
  have hsorted := byCreation_sorted (unpublished s) order
  have hev : ev ∈ s.outbox.rows := by
    have hmem : ev ∈ byCreation (unpublished s) order := by
      rw [hfound]
      exact List.mem_append_right _ (List.mem_cons_self ..)
    exact (mem_unpublished.mp ((mem_byCreation horder).mp hmem)).1
  obtain ⟨first, hfirst, hopens, hlt⟩ := (hordered.rows.of_prefix hgrow).exists_of_mem hev hout
  by_cases hnew : first.publishedAt = none
  · have hmem : first ∈ byCreation (unpublished s) order :=
      (mem_byCreation horder).mpr (mem_unpublished.mpr ⟨hfirst, hnew⟩)
    rw [hfound] at hmem hsorted
    have hin := mem_front_of_lt hsorted hmem hlt
    exact Or.inr ⟨(pid, publish t first), List.mem_map_of_mem hin, hopens⟩
  · have hsome := Option.isSome_iff_ne_none.mpr hnew
    obtain ⟨pid', hlogged⟩ := (htallied.published first).mp ⟨hgrow.subset hfirst, hsome⟩
    exact Or.inl ⟨(pid', first), hlogged, hopens⟩

/-- A run with one worker, in which rows are created in the order of their times. -/
def Relayed (σ : State) (l : Label backend Call) : Prop :=
  Starts Call.isService σ l ∧ SingleWorker σ l ∧ CreationOrder σ l

theorem delivered_of_logged (hpayments : db.payments.rows = []) (hentries : EntriesKnown db)
    (hrefunds : ∀ r ∈ db.refunds.rows, (db.payments.find? r.paymentId).isSome)
    (houtbox : db.outbox.rows = []) (hspent : ReferencesUsed db spent)
    (h : Logged ext Relayed (System.initial db spent) σ log) : Delivered log := by
  induction h with
  | start => exact heralded_nil
  | step σ log l σ' hlogged hok hl ih =>
    have hrun := hlogged.run
    have hordered := chronological_of_run hpayments hentries hrefunds houtbox hspent
      (fun _ _ hok => hok.1) (fun _ _ hok => hok.2.2) hrun
    have hworking := working_of_run (fun _ _ hok => hok.2.1) hrun
    have hnone : ∀ ev ∈ db.outbox.rows, ev.publishedAt = none := by
      rw [houtbox]
      exact fun _ hev => absurd hev List.not_mem_nil
    cases publishes_of_step (running_of_run hrun) hl with
    | added new hnew hlog hrows =>
      rw [hlog, List.append_nil]
      exact ih
    | drained p b next evs t hp hcall hq hL hd hdrains hσ =>
      subst hσ
      have hwork : ¬ p.Finished := by
        rintro (⟨v, hv⟩ | ⟨e, he⟩)
        · rw [hq] at hv
          contradiction
        · rw [hq] at he
          contradiction
      obtain ⟨F, evs', t', s, hdrains', -, hgrow, order, horder, hevs⟩ :=
        (hworking.alone l.pid p b hp hcall hwork).drains hp hcall hq hL hd
      rw [newlyPublished_drained hp hcall hdrains']
      exact ih.drained hordered (tallied_of_logged hnone hlogged) hgrow horder hevs t'

/-- With one worker, whatever the writers do, a payment is announced as processing before it is
announced as succeeded or failed. -/
theorem processing_published_first (hpayments : db.payments.rows = []) (hentries : EntriesKnown db)
    (hrefunds : ∀ r ∈ db.refunds.rows, (db.payments.find? r.paymentId).isSome)
    (houtbox : db.outbox.rows = []) (hspent : ReferencesUsed db spent)
    (h : Logged ext Relayed (System.initial db spent) σ log) :
    ∀ front pid ev rest, log = front ++ (pid, ev) :: rest →
      ev.eventType = "payment.succeeded" ∨ ev.eventType = "payment.failed" →
        ∃ pid' first, (pid', first) ∈ front ∧ first.aggregateId = ev.aggregateId ∧
          first.eventType = "payment.processing" := by
  intro front pid ev rest hlog hout
  have hdelivered := delivered_of_logged hpayments hentries hrefunds houtbox hspent h
  obtain ⟨first, hfirst, hagg, htype⟩ := hdelivered front (pid, ev) rest hlog hout
  exact ⟨first.1, first.2, hfirst, hagg, htype⟩

/-- The steps of the sample: a drain is not started, and rows are created in order. -/
def creationCheck (σ : State) : Label backend Call → Bool
  | .start _ (.create _ _) => true
  | .start _ _ => false
  | .cancel _ => true
  | .run pid _ =>
      match σ.procs pid with
      | none => true
      | some p =>
          match p.prog with
          | .stage (.insert (.outbox ev)) _ =>
              σ.db.outbox.rows.all fun first => first.createdAt < ev.createdAt
          | _ => true

theorem relayed_of_check {l : Label backend Call} (h : creationCheck σ l = true) : Relayed σ l := by
  refine ⟨?_, ?_, ?_⟩
  · cases l with
    | start pid c =>
      cases c with
      | create k req => trivial
      | _ => contradiction
    | _ => trivial
  · rintro pid b rfl
    contradiction
  · rintro pid o p next ev rfl hp hprog first hfirst
    unfold creationCheck at h
    dsimp only at h
    rw [hp] at h
    dsimp only at h
    rw [hprog] at h
    exact of_decide_eq_true (List.all_eq_true.mp h first hfirst)

/-- A drain that starts before a payment is created, and reads the outbox after it has been
captured, publishes both events. -/
theorem exists_relayed :
    ∃ σ log, Logged sampleExternals Relayed (System.initial sampleDatabase []) σ log ∧
      σ.db.payments.rows.map Payment.status = [.succeeded] ∧
      σ.db.outbox.rows.map (fun ev => (ev.eventType, ev.createdAt, ev.publishedAt)) =
        [("payment.processing", 28, some 99), ("payment.succeeded", 57, some 99)] := by
  have hstart : System.Run (program sampleExternals) Relayed (System.initial sampleDatabase [])
      ((System.initial sampleDatabase []).set 1
        (.atBoundary ⟨.drain 5, sampleDatabase, program sampleExternals (.drain 5), []⟩)) := by
    refine .single ⟨.start 1 (.drain 5), rfl, trivial, ?_, ?_⟩
    · intro pid b _ pid' p b' hp
      contradiction
    · intro pid o p next ev hl
      contradiction
  obtain ⟨σ, hexec, hrows⟩ := Option.map_eq_some_iff.mp (show
    (System.execWith (program sampleExternals) creationCheck
      (.start 0 (.create "key" (sampleRequest 3)) ::
        (List.range 68).map (fun i => .run 0 (sampleOracle (.ok ⟨.captured, some "psp", none⟩) i
          (10 + i))) ++ sampleSteps 1 100 11 (.error "unused") 99)
      ((System.initial sampleDatabase []).set 1
        (.atBoundary ⟨.drain 5, sampleDatabase, program sampleExternals (.drain 5), []⟩))).map
      (fun σ => (σ.db.payments.rows.map Payment.status,
        σ.db.outbox.rows.map fun ev => (ev.eventType, ev.createdAt, ev.publishedAt))) =
    some ([.succeeded], [("payment.processing", 28, some 99), ("payment.succeeded", 57, some 99)])
    by decide +kernel)
  have hrun := hstart.trans (System.run_of_execWith (fun _ _ => relayed_of_check) hexec)
  obtain ⟨log, hlogged⟩ := logged_of_run hrun
  obtain ⟨hstatus, hevents⟩ := Prod.mk.inj hrows
  exact ⟨σ, log, hlogged, hstatus, hevents⟩

theorem entriesKnown_sampleDatabase : EntriesKnown sampleDatabase := by
  simp [EntriesKnown, sampleDatabase, Table.empty]

theorem referencesUsed_sampleDatabase : ReferencesUsed sampleDatabase [] := by
  simp [ReferencesUsed, sampleDatabase, Table.empty]

theorem processing_published_first_sample :
    ∃ σ log, Logged sampleExternals Relayed (System.initial sampleDatabase []) σ log ∧
      σ.db.outbox.rows.map (fun ev => (ev.eventType, ev.createdAt, ev.publishedAt)) =
        [("payment.processing", 28, some 99), ("payment.succeeded", 57, some 99)] ∧
      ∀ front pid ev rest, log = front ++ (pid, ev) :: rest →
        ev.eventType = "payment.succeeded" ∨ ev.eventType = "payment.failed" →
          ∃ pid' first, (pid', first) ∈ front ∧ first.aggregateId = ev.aggregateId ∧
            first.eventType = "payment.processing" := by
  obtain ⟨σ, log, hlogged, -, hrows⟩ := exists_relayed
  exact ⟨σ, log, hlogged, hrows, processing_published_first rfl entriesKnown_sampleDatabase
    (fun _ hr => absurd hr List.not_mem_nil) rfl referencesUsed_sampleDatabase hlogged⟩

end Worker

end ApexPayments.Service
