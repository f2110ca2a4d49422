import ApexPayments.Publishing

/-!
The next drain. A drain that is the only one to take steps publishes the rows that are
unpublished and that no other drain holds, in the order of their creation. The writers go on
beside it: what they commit meanwhile comes at the end of the outbox.
-/
namespace ApexPayments.Service

open Domain Store Payments Relay RowLocking

section Locks

variable {ext : Externals} {db : Database} {spent : List Uuid} {σ : State} {pid : ℕ}
  {p : Process backend Call Reply} {ok : State → Label backend Call → Prop}

/-- The outbox rows that the transaction writes are new ones, and it holds no others. -/
structure OutboxInserted (L : Session backend) : Prop where
  pending : ∀ w ∈ L.pending, ∀ ev, w.row = .outbox ev → w = .insert (.outbox ev)
  held : ∀ id, .outbox id ∈ L.held → ∃ ev : Outbox, ev.id = id ∧ .insert (.outbox ev) ∈ L.flushed

theorem keeps_outboxInserted (ranked open_ : Prop) : (orderly ranked open_).Keeps OutboxInserted where
  fresh := ⟨fun _ h => absurd h List.not_mem_nil, fun _ h => absurd h List.not_mem_nil⟩
  see _ _ h := ⟨h.pending, h.held⟩
  draw _ _ h := ⟨h.pending, h.held⟩
  hold L k hk h := by
    refine ⟨h.pending, fun id hid => ?_⟩
    rcases (mem_addHeld _ _ _).mp hid with hsame | hid
    · exact absurd hsame.symm ((hk.resolve_right fun h => h).1 id)
    · exact h.held id hid
  stage L w hw h := by
    refine ⟨fun v hv ev hev => ?_, h.held⟩
    rcases List.mem_append.mp hv with hv | hv
    · exact h.pending v hv ev hev
    · rw [List.mem_singleton.mp hv] at hev ⊢
      exact (hw ev hev).1
  execute L w ws hpending _ h := by
    refine ⟨fun v hv => h.pending v (hpending ▸ List.mem_cons_of_mem _ hv), fun id hid => ?_⟩
    rcases (mem_addHeld _ _ _).mp hid with hsame | hid
    · cases hrow : w.row with
      | outbox ev =>
        have hinsert := h.pending w (hpending ▸ List.mem_cons_self ..) ev hrow
        subst hinsert
        cases hsame
        exact ⟨ev, rfl, List.mem_append_right _ (List.mem_singleton_self _)⟩
      | _ =>
        have hkey : w.key = .outbox id := hsame.symm
        unfold Write.key at hkey
        rw [hrow] at hkey
        contradiction
    · obtain ⟨ev, hev, hmem⟩ := h.held id hid
      exact ⟨ev, hev, List.mem_append_left _ hmem⟩

/-- A committed outbox row is held by drains only. -/
theorem drain_of_held (h : System.Run (program ext) ok (System.initial db spent) σ)
    (hp : σ.procs pid = some p) {id : Uuid} (hheld : .outbox id ∈ p.session.held)
    (hfound : (σ.db.outbox.find? id).isSome) : ∃ b, p.call = .drain b := by
  by_contra hcall
  have hd := System.disciplined_of_run (D := fun c => ∀ n, c ≠ .drain n)
    (keeps_outboxInserted False False) (fun c hc => obeys_program ext hc fun hf => hf.elim)
    (fun _ _ _ _ _ _ _ _ _ _ _ _ _ _ hf => hf.elim) h pid p hp fun n hn => hcall ⟨n, hn⟩
  obtain ⟨ev, rfl, hmem⟩ := hd.kept.held id hheld
  have habsent := absent_of_replay ((System.sound_of_any_run h).replayed pid p hp).replay hmem
  have hnone : σ.db.outbox.find? ev.id = none := Option.map_eq_none_iff.mp habsent
  rw [hnone] at hfound
  contradiction

end Locks

section Selection

variable {σ₁ : State} {pid b : ℕ} {s hi since : Database} {spent : List Uuid} {order : List Uuid}
  {evs : List Outbox}

/-- The drain of another process holds the row. -/
def DrainHolds (σ : State) (pid : ℕ) (k : Key) : Prop :=
  ∃ pid' p b, pid' ≠ pid ∧ σ.procs pid' = some p ∧ p.call = .drain b ∧ k ∈ p.session.held

/-- New rows come at the end of the outbox. -/
def Growing (s t : Database) : Prop := s.outbox.rows <+: t.outbox.rows

/-- What a drain takes from a store that it has seen: the first rows that no other drain held when
it started. -/
structure Took (σ₁ : State) (pid b : ℕ) (s : Database) (evs : List Outbox) : Prop where
  grown : Growing σ₁.db s
  taken : ∃ order passed : List Uuid, order.Perm ((unpublished s).map Outbox.id) ∧
    (∀ id ∈ passed, DrainHolds σ₁ pid (.outbox id)) ∧
    evs = ((byCreation (unpublished s) order).filter fun ev => ev.id ∉ passed).take b

theorem mem_unpublished {ev : Outbox} :
    ev ∈ unpublished s ↔ ev ∈ s.outbox.rows ∧ ev.publishedAt = none := by
  rw [unpublished, List.mem_filter, Option.isNone_iff_eq_none]

theorem mem_byCreation (horder : order.Perm ((unpublished s).map Outbox.id)) {ev : Outbox} :
    ev ∈ byCreation (unpublished s) order ↔ ev ∈ unpublished s :=
  (byCreation_perm (unpublished_nodup s) horder).mem_iff

/-- A row that was there and unpublished is passed over only if another drain holds it. -/
theorem skips_of_passedOver {skips : Key → Prop}
    (hpassed : PassedOver ⟨Growing, since, hi, spent, skips⟩ ((Session.fresh backend).see s) ev.id)
    (hev : ev ∈ unpublished s) (hgrow : Growing s hi) : skips (.outbox ev.id) := by
  obtain ⟨hmem, hnew⟩ := mem_unpublished.mp hev
  rcases hpassed with hskip | ⟨t, ht, hnone⟩ | ⟨e, hfound, hsome⟩
  · exact hskip
  · have hst : Growing s t := ht.2 s (List.mem_singleton_self _)
    have hfound : t.outbox.find? ev.id = some ev := Table.find?_of_mem (hst.subset hmem)
    change t.outbox.find? ev.id = none at hnone
    rw [hfound] at hnone
    contradiction
  · have hsame : hi.outbox.find? ev.id = some ev := Table.find?_of_mem (hgrow.subset hmem)
    change hi.outbox.find? ev.id = some e at hfound
    rw [hsame] at hfound
    cases hfound
    rw [hnew] at hsome
    contradiction

theorem took_of_drawn (hsince : Growing σ₁.db since)
    (hd : Drawn ⟨Growing, since, hi, spent, DrainHolds σ₁ pid⟩ b s order evs) :
    Took σ₁ pid b s evs ∧ Growing s hi := by
  classical
  obtain ⟨hlo, hgrow⟩ := hd.sees
  obtain ⟨passed, hpassed, hmap⟩ := hd.taken
  have hmem : ∀ ev ∈ byCreation (unpublished s) order, ev ∈ unpublished s := fun ev =>
    (mem_byCreation hd.scanned).mp
  refine ⟨⟨List.IsPrefix.trans hsince hlo, order,
    passed.filter fun id => DrainHolds σ₁ pid (.outbox id), hd.scanned, ?_, ?_⟩, hgrow⟩
  · intro id hid
    exact of_decide_eq_true (List.mem_filter.mp hid).2
  · have hkeep : (byCreation (unpublished s) order).filter (fun ev => ev.id ∉ passed) =
        (byCreation (unpublished s) order).filter
          fun ev => ev.id ∉ passed.filter fun id => DrainHolds σ₁ pid (.outbox id) := by
      refine List.filter_congr fun ev hev => ?_
      have hiff : ev.id ∈ passed ↔
          ev.id ∈ passed.filter fun id => DrainHolds σ₁ pid (.outbox id) := by
        rw [List.mem_filter, decide_eq_true_eq]
        exact ⟨fun h => ⟨h, skips_of_passedOver (hpassed _ h) (hmem ev hev) hgrow⟩, fun h => h.1⟩
      simp only [hiff]
    rw [← hkeep]
    refine Table.eq_of_keys_eq (t := hi.outbox) ?_ ?_ ?_
    · exact fun ev hev => Table.mem_of_find? (hd.current ev hev).2
    · intro ev hev
      have hin := (List.mem_filter.mp (List.mem_of_mem_take hev)).1
      exact hgrow.subset (mem_unpublished.mp (hmem ev hin)).1
    · rw [hmap, List.filter_map, ← List.map_take]
      rfl

/-- The first rows in the order of creation contain a row, or they are all older. -/
theorem mem_take_or_full {xs : List Outbox}
    (hsorted : xs.Pairwise fun ev ev' => ev.createdAt ≤ ev'.createdAt) (b : ℕ) {ev : Outbox}
    (hev : ev ∈ xs) : ev ∈ xs.take b ∨
      (xs.take b).length = b ∧ ∀ x ∈ xs.take b, x.createdAt ≤ ev.createdAt := by
  by_cases hin : ev ∈ xs.take b
  · exact Or.inl hin
  · have hdrop : ev ∈ xs.drop b := by
      rw [← List.take_append_drop b xs] at hev
      exact (List.mem_append.mp hev).resolve_left hin
    have hlen : b < xs.length := by
      by_contra hle
      rw [List.drop_of_length_le (by omega)] at hdrop
      exact List.not_mem_nil hdrop
    rw [← List.take_append_drop b xs, List.pairwise_append] at hsorted
    refine Or.inr ⟨?_, fun x hx => hsorted.2.2 x hx ev hdrop⟩
    rw [List.length_take]
    omega

/-- A row that is unpublished and that no drain holds is eligible: the drain takes it, or it takes as
many rows as it may, none of them created after it. -/
theorem Took.eligible (h : Took σ₁ pid b s evs) {ev : Outbox} (hev : ev ∈ s.outbox.rows)
    (hnew : ev.publishedAt = none) (hfree : ¬ DrainHolds σ₁ pid (.outbox ev.id)) :
    ev ∈ evs ∨ evs.length = b ∧ ∀ x ∈ evs, x.createdAt ≤ ev.createdAt := by
  obtain ⟨order, passed, horder, hpassed, rfl⟩ := h.taken
  apply mem_take_or_full
  · exact (byCreation_sorted (unpublished s) order).filter _
  · rw [List.mem_filter, mem_byCreation horder, mem_unpublished]
    refine ⟨⟨hev, hnew⟩, ?_⟩
    rw [decide_eq_true_eq]
    exact fun hmem => hfree (hpassed ev.id hmem)

/-- The batch that a drain has published, the store that it saw and the one it committed to. -/
structure Batch (σ₁ : State) (pid b : ℕ) (evs : List Outbox) (s hi : Database) : Prop where
  took : Took σ₁ pid b s evs
  grow : Growing s hi
  nodup : (evs.map Outbox.id).Nodup
  current : ∀ ev ∈ evs, ev.publishedAt = none ∧ hi.outbox.find? ev.id = some ev

end Selection

section Alone

variable {ext : Externals} {P : Call → Prop} {db : Database} {spent : List Uuid} {σ₁ σ σ' : State}
  {pid : ℕ} {ok : State → Label backend Call → Prop} {faults : Prop}

/-- No drain but that of one process takes a step. -/
def SoleDrain (pid : ℕ) (σ : State) (l : Label backend Call) : Prop :=
  l.pid = pid ∨ ∀ p b, σ.procs l.pid = some p → p.call ≠ .drain b

/-- The other drains stand as they did, or have taken no step. -/
def Still (σ₁ : State) (pid : ℕ) (σ : State) : Prop :=
  ∀ pid' p b, pid' ≠ pid → σ.procs pid' = some p → p.call = .drain b →
    σ₁.procs pid' = some p ∨ p.session.held = []

theorem still_of_step (h : Still σ₁ pid σ) {l : Label backend Call}
    (hl : σ.step (program ext) l = some σ') (hsole : SoleDrain pid σ l) : Still σ₁ pid σ' := by
  obtain ⟨act, hs⟩ := System.stepped_of_step hl
  intro pid' q b hne hq hcall
  by_cases hpid : pid' = l.pid
  · subst hpid
    cases hprev : σ.procs l.pid with
    | none =>
      cases hs with
      | start pid' c hnone =>
        obtain rfl := Option.some.inj ((System.procs_set_self σ pid' _).symm.trans hq)
        exact Or.inr rfl
      | cancel pid' p hp | call pid' o p query next hp | deferred pid' o p next e hp
      | refused pid' o p e L hp | advance pid' o p prog L issued hp | commit pid' o p next hp =>
        rw [Label.pid, hp] at hprev
        contradiction
    | some p =>
      have hsame := System.call_of_stepped hs hprev hq
      exact absurd (hsame.symm.trans hcall) (hsole.resolve_left hne p b hprev)
  · rw [hs.procs_of_ne hpid] at hq
    exact h pid' q b hne hq hcall

/-- A drain passes over a row only if another drain held it from the start. -/
theorem skipsOnly_of_still (hrun : System.Run (program ext) ok (System.initial db spent) σ)
    (hstill : Still σ₁ pid σ) {p : Process backend Call Reply} {b : ℕ} (hp : σ.procs pid = some p) (hcall : p.call = .drain b)
    {l : Label backend Call} (hpid : l.pid = pid) :
    System.SkipsOnly (DrainHolds σ₁ pid) σ l := by
  rintro pid' o k rfl ⟨q, next, r, hq, hprog, hget, hfree⟩
  obtain rfl : pid' = pid := hpid
  obtain rfl := Option.some.inj (hp.symm.trans hq)
  have hsound := System.sound_of_any_run hrun
  have hobeys := (System.disciplined_of_run (D := fun c => ∃ n, c = .drain n) draining.keeps_true
    (fun c hc => hc.elim fun n hn => hn ▸ obeys_drain ext n)
    (fun _ _ _ _ _ _ _ _ _ _ _ _ _ _ => trivial) hrun pid' p hp ⟨b, hcall⟩).obeys
  rw [hprog] at hobeys
  obtain ⟨id, rfl⟩ := hobeys.1
  obtain ⟨pid'', q, hne, hq, hheld⟩ := hsound.held_of_locked hfree
  -- the row is committed, since the drain itself has not written it
  have hcommitted : backend.get σ.db (.outbox id) = some r := by
    rw [← hget, get_view_of_notMem]
    rintro w hw hkey
    have hown := flushed_held (hsound.replayed pid' p hp).replay w hw
    rw [← hkey] at hown
    exact hne (hsound.rows_once pid'' pid' q p hq hp _ hheld hown)
  obtain ⟨ev, hfound, -⟩ := Option.map_eq_some_iff.mp hcommitted
  obtain ⟨b', hcall'⟩ := drain_of_held hrun hq hheld (Option.isSome_of_eq_some hfound)
  rcases hstill pid'' q b' hne hq hcall' with hq₁ | hnil
  · exact ⟨pid'', q, b', hne, hq₁, hcall', hheld⟩
  · rw [hnil] at hheld
    exact absurd hheld List.not_mem_nil

/-- How far a drain has come since `σ₁`. It fails only if it is cancelled. -/
inductive Draining (ext : Externals) (faults : Prop) (σ₁ : State) (pid : ℕ) (σ : State) : Prop
  | waiting (hnone : σ.procs pid = none) (hgrow : Growing σ₁.db σ.db)
  | busy (p : Process backend Call Reply) (b : ℕ) (hp : σ.procs pid = some p)
      (hcall : p.call = .drain b) (hbase : p.base = program ext (.drain b)) (ht : p.trace = [])
      (hsince : Growing σ₁.db p.since)
      (hr : System.Replayed Growing (DrainHolds σ₁ pid) σ.db σ.spent σ.issued p)
  | failed (p : Process backend Call Reply) (b : ℕ) (e : Exn) (hp : σ.procs pid = some p)
      (hcall : p.call = .drain b) (hprog : p.prog = .raise e) (hfaults : faults)
  | done (p : Process backend Call Reply) (b : ℕ) (s hi : Database) (evs new : List Outbox) (t : Time)
      (hp : σ.procs pid = some p) (hcall : p.call = .drain b)
      (hprog : p.prog = pure (.drained evs.length)) (hbatch : Batch σ₁ pid b evs s hi)
      (hpublished : publishedBy p = evs.map (publish t))
      (hrows : σ.db.outbox.rows = (view hi (publishAll t evs)).outbox.rows ++ new)
  | other (p : Process backend Call Reply) (hp : σ.procs pid = some p) (hcall : ∀ b, p.call ≠ .drain b)

theorem growing_trans (s t u : Database) (h : Growing s t) (h' : Growing t u) : Growing s u :=
  List.IsPrefix.trans h h'

theorem growing_refl (s : Database) : Growing s s := List.prefix_refl _

/-- The others only add rows to the outbox. -/
theorem growing_of_step (h : Running ext P anyKey σ) {l : Label backend Call}
    (hl : σ.step (program ext) l = some σ') (hsole : SoleDrain pid σ l) (hne : l.pid ≠ pid) :
    ∃ new, σ'.db.outbox.rows = σ.db.outbox.rows ++ new := by
  cases publishes_of_step h hl with
  | added new hnew hlog hrows => exact ⟨new, hrows⟩
  | drained p b next evs t hp hcall hq hL hd hdrains hσ =>
    exact absurd hcall (hsole.resolve_left hne p b hp)

/-- A step of another process. -/
theorem Draining.others (h : Draining ext faults σ₁ pid σ) (hsound : System.Exclusive σ)
    (hrunning : Running ext P anyKey σ) {l : Label backend Call}
    (hl : σ.step (program ext) l = some σ') (hsole : SoleDrain pid σ l) (hne : l.pid ≠ pid) :
    Draining ext faults σ₁ pid σ' := by
  obtain ⟨added, hadded⟩ := growing_of_step hrunning hl hsole hne
  have hgrow' : Growing σ.db σ'.db := ⟨added, hadded.symm⟩
  obtain ⟨act, hs⟩ := System.stepped_of_step hl
  have hsame : σ'.procs pid = σ.procs pid := hs.procs_of_ne (Ne.symm hne)
  cases h with
  | waiting hnone hgrow => exact .waiting (hsame.trans hnone) (growing_trans _ _ _ hgrow hgrow')
  | busy p b hp hcall hbase ht hsince hr =>
    have hself : ∀ q, σ.procs pid = some q → System.Replayed Growing
        (DrainHolds σ₁ pid) σ.db σ.spent σ.issued q := by
      intro q hq
      obtain rfl := Option.some.inj (hp.symm.trans hq)
      exact hr
    exact .busy p b (hsame.trans hp) hcall hbase ht hsince (System.Replayed.step growing_refl
      growing_trans hsound hs (fun hpid => absurd hpid.symm hne) hgrow' hself p (hsame.trans hp))
  | failed p b e hp hcall hprog hfaults => exact .failed p b e (hsame.trans hp) hcall hprog hfaults
  | done p b s hi evs new t hp hcall hprog hbatch hpublished hrows =>
    refine .done p b s hi evs (new ++ added) t (hsame.trans hp) hcall hprog hbatch hpublished ?_
    rw [hadded, hrows, List.append_assoc]
  | other p hp hcall => exact .other p (hsame.trans hp) hcall

/-- The commit of the drain. -/
theorem draining_commit {p : Process backend Call Reply} {b : ℕ} {next : Program Reply}
    {evs : List Outbox} {t : Time} (hcall : p.call = .drain b) (ht : p.trace = [])
    (hsince : Growing σ₁.db p.since)
    (hd : Drains ⟨Growing, p.since, σ.db, σ.spent, DrainHolds σ₁ pid⟩ b evs t next
      p.session) : Draining ext faults σ₁ pid (σ.commit pid p next) := by
  obtain ⟨s, order, hdrawn⟩ := hd.select
  obtain ⟨htook, hgrow⟩ := took_of_drawn hsince hdrawn
  refine .done _ b s σ.db evs [] t (System.procs_set_self σ pid _) hcall hd.next
    ⟨htook, hgrow, hdrawn.nodup, hdrawn.current⟩ (publishedBy_drained hcall ht hd _) ?_
  rw [List.append_nil, ← hd.flushed]
  rfl

/-- A step of a drain that has not committed. It fails only if it is cancelled. -/
theorem draining_step {p : Process backend Call Reply} {b : ℕ} (hsound : System.Exclusive σ)
    {l : Label backend Call} (hl : σ.step (program ext) l = some σ') (hp : σ.procs l.pid = some p)
    (hcall : p.call = .drain b) (hbase : p.base = program ext (.drain b)) (ht : p.trace = [])
    (hsince : Growing σ₁.db p.since) (hfaults : l.isCancel → faults)
    (hskips : System.SkipsOnly (DrainHolds σ₁ l.pid) σ l)
    (hr : System.Replayed Growing (DrainHolds σ₁ l.pid) σ.db σ.spent σ.issued p) :
    Draining ext faults σ₁ l.pid σ' := by
  obtain ⟨act, hs⟩ := System.stepped_of_step hl
  have hstops : ∀ o, p.base.Runs ⟨Growing, p.since, σ.db, σ.spent, DrainHolds σ₁ l.pid⟩
      (.fresh backend) o → Stop.Commits (fun _ => False) (fun next L => ∃ evs t, Drains
        ⟨Growing, p.since, σ.db, σ.spent, DrainHolds σ₁ l.pid⟩ b evs t next L) o := by
    rw [hbase]
    exact drain_ensures ext b
  have hself : ∀ q, σ.procs l.pid = some q → System.Replayed Growing
      (DrainHolds σ₁ l.pid) σ.db σ.spent σ.issued q := by
    intro q hq
    obtain rfl := Option.some.inj (hp.symm.trans hq)
    exact hr
  cases hs with
  | start pid c hnone =>
    rw [Label.pid, hnone] at hp
    contradiction
  | cancel pid q hq hv he =>
    obtain rfl := Option.some.inj (hq.symm.trans hp)
    exact .failed _ b _ (System.procs_set_self σ pid _) hcall rfl (hfaults trivial)
  | call pid o q query next hq hprog hL =>
    obtain rfl := Option.some.inj (hq.symm.trans hp)
    exact (hstops (.calling query next q.session)
      (runs_of_replay hr.replay (by rw [hprog]; rfl))).elim
  | deferred pid o q next e hq hprog hL hd =>
    obtain rfl := Option.some.inj (hq.symm.trans hp)
    exact (hstops _ (hr.runs_deferred hprog hL hd)).elim
  | refused pid o q e L hq hl' =>
    obtain rfl := Option.some.inj (hq.symm.trans hp)
    exact (hstops _ (hr.runs_refused growing_refl hsound.spent_issued
      (System.SkipsOnly.passes hskips hq) hl')).elim
  | commit pid o q next hq hprog hL hd =>
    obtain rfl := Option.some.inj (hq.symm.trans hp)
    obtain ⟨evs, t, hdrains⟩ := hstops _ (hr.runs_commit hprog hL hd)
    exact draining_commit hcall ht hsince hdrains
  | advance pid o q prog L issued hq he hl' hi =>
    obtain rfl := Option.some.inj (hq.symm.trans hp)
    have hnew := System.procs_set_self σ pid { q with prog := prog, session := L }
    have hadvance : System.Stepped (program ext) σ (.run pid o) none _ :=
      .advance pid o q prog L issued hq he hl' hi
    exact .busy _ b hnew hcall hbase ht hsince (System.Replayed.step growing_refl growing_trans
      hsound hadvance (fun _ => hskips) (growing_refl _) hself _ hnew)

/-- A step of the drain itself. -/
theorem Draining.self (h : Draining ext faults σ₁ pid σ) (hsound : System.Exclusive σ)
    {l : Label backend Call} (hl : σ.step (program ext) l = some σ') (hpid : l.pid = pid)
    (hfaults : l.isCancel → faults)
    (hskips : ∀ p b, σ.procs pid = some p → p.call = .drain b →
      System.SkipsOnly (DrainHolds σ₁ pid) σ l) : Draining ext faults σ₁ pid σ' := by
  subst hpid
  obtain ⟨act, hs⟩ := System.stepped_of_step hl
  cases h with
  | waiting hnone hgrow =>
    cases hs with
    | start pid c hp =>
      have hself := System.procs_set_self σ pid (.atBoundary ⟨c, σ.db, program ext c, []⟩)
      by_cases hcall : ∃ b, c = .drain b
      · obtain ⟨b, rfl⟩ := hcall
        exact .busy _ b hself rfl rfl rfl hgrow (System.replayed_atBoundary growing_refl _ _ _ _ rfl)
      · exact .other _ hself fun b hb => hcall ⟨b, hb⟩
    | cancel pid p hp | call pid o p query next hp | deferred pid o p next e hp
    | refused pid o p e L hp | advance pid o p prog L issued hp | commit pid o p next hp =>
      rw [Label.pid, hp] at hnone
      contradiction
  | busy p b hp hcall hbase ht hsince hr =>
    exact draining_step hsound hl hp hcall hbase ht hsince hfaults (hskips p b hp hcall) hr
  | failed p b e hp hcall hprog hfaults' =>
    exact absurd rfl (hs.ne_of_finished hp (Or.inr ⟨e, hprog⟩))
  | done p b s hi evs new t hp hcall hprog hbatch hpublished hrows =>
    exact absurd rfl (hs.ne_of_finished hp (Or.inl ⟨_, hprog⟩))
  | other p hp hcall =>
    obtain ⟨p', hp', -⟩ := System.trace_of_stepped hs hp
    refine .other p' hp' fun b => ?_
    rw [System.call_of_stepped hs hp hp']
    exact hcall b

theorem draining_of_run (faults : Prop)
    (h₁ : System.Run (program ext) ok (System.initial db spent) σ₁)
    (hnone : σ₁.procs pid = none) {ok' : State → Label backend Call → Prop}
    (hok : ∀ σ l, ok' σ l → SoleDrain pid σ l ∧ (l.pid = pid → l.isCancel → faults))
    (h : System.Run (program ext) ok' σ₁ σ) : Draining ext faults σ₁ pid σ ∧ Still σ₁ pid σ := by
  have hstart : System.Run (program ext) anyStep (System.initial db spent) σ₁ :=
    h₁.mono fun _ _ _ => trivial
  induction h with
  | refl => exact ⟨.waiting hnone (growing_refl _), fun _ _ _ _ hp _ => Or.inl hp⟩
  | @tail σ₂ σ₃ hrun hstep ih =>
    obtain ⟨l, hl, hstepok⟩ := hstep
    obtain ⟨hsole, hcancel⟩ := hok σ₂ l hstepok
    obtain ⟨hdraining, hstill⟩ := ih
    have hreached : System.Run (program ext) anyStep (System.initial db spent) σ₂ :=
      hstart.trans (System.Run.mono hrun fun _ _ _ => trivial)
    have hsound := System.sound_of_any_run hreached
    refine ⟨?_, still_of_step hstill hl hsole⟩
    by_cases hpid : l.pid = pid
    · refine hdraining.self hsound hl hpid (hcancel hpid) fun p b hp hcall => ?_
      exact skipsOnly_of_still hreached hstill hp hcall hpid
    · exact hdraining.others hsound (running_of_run hreached) hl hsole hpid

/-- A drain that has returned has published a batch. -/
theorem Draining.exists_batch (h : Draining ext faults σ₁ pid σ) {p : Process backend Call Reply}
    {b n : ℕ} (hp : σ.procs pid = some p) (hcall : p.call = .drain b)
    (hprog : p.prog = pure (.drained n)) : ∃ evs s hi t new, Batch σ₁ pid b evs s hi ∧
      n = evs.length ∧ publishedBy p = evs.map (publish t) ∧
      σ.db.outbox.rows = (view hi (publishAll t evs)).outbox.rows ++ new := by
  cases h with
  | waiting hnone hgrow =>
    rw [hnone] at hp
    contradiction
  | busy q b' hq hcall' hbase ht hsince hr =>
    obtain rfl := Option.some.inj (hq.symm.trans hp)
    have hstops := drain_ensures ext b' (F := ⟨Growing, q.since, σ.db, σ.spent,
      DrainHolds σ₁ pid⟩) (.value (.drained n) q.session) ?_
    · exact hstops.elim
    · rw [← hbase]
      exact runs_of_replay hr.replay (by rw [hprog]; rfl)
  | failed q b' e hq hcall' hprog' hfaults =>
    obtain rfl := Option.some.inj (hq.symm.trans hp)
    rw [hprog'] at hprog
    contradiction
  | done q b' s hi evs new t hq hcall' hprog' hbatch hpublished hrows =>
    obtain rfl := Option.some.inj (hq.symm.trans hp)
    obtain rfl : b' = b := Call.drain.inj (hcall'.symm.trans hcall)
    rw [hprog'] at hprog
    cases hprog
    exact ⟨evs, s, hi, t, new, hbatch, rfl, hpublished, hrows⟩
  | other q hq hcall' =>
    obtain rfl := Option.some.inj (hq.symm.trans hp)
    exact absurd hcall (hcall' b)

/-- A row that is unpublished and not locked is eligible for the next drain: the drain publishes
it, or it publishes as many rows as it may, none of them created after it. -/
theorem next_drain_takes (h₁ : System.Run (program ext) ok (System.initial db spent) σ₁)
    (hnone : σ₁.procs pid = none) (h : System.Run (program ext) (SoleDrain pid) σ₁ σ)
    {p : Process backend Call Reply} {b n : ℕ} (hp : σ.procs pid = some p) (hcall : p.call = .drain b)
    (hprog : p.prog = pure (.drained n)) {ev : Outbox} (hev : ev ∈ σ₁.db.outbox.rows)
    (hnew : ev.publishedAt = none) (hfree : σ₁.free pid (.outbox ev.id) = true) :
    (∃ t, publish t ev ∈ publishedBy p) ∨ n = b ∧ ∀ x ∈ publishedBy p, x.createdAt ≤ ev.createdAt := by
  obtain ⟨hdraining, -⟩ := draining_of_run True h₁ hnone
    (fun _ _ hok => ⟨hok, fun _ _ => trivial⟩) h
  obtain ⟨evs, s, hi, t, new, hbatch, rfl, hpublished, -⟩ := hdraining.exists_batch hp hcall hprog
  rw [hpublished]
  have hunheld : ¬ DrainHolds σ₁ pid (.outbox ev.id) := by
    rintro ⟨pid', q, -, hne, hq, -, hheld⟩
    have hlocked := (System.sound_of_any_run h₁).locked_of_held hq hheld hne
    rw [hfree] at hlocked
    contradiction
  rcases hbatch.took.eligible (hbatch.took.grown.subset hev) hnew hunheld with hin | ⟨hfull, hall⟩
  · exact Or.inl ⟨t, List.mem_map_of_mem hin⟩
  · refine Or.inr ⟨hfull, fun x hx => ?_⟩
    obtain ⟨y, hy, rfl⟩ := List.mem_map.mp hx
    exact hall y hy

end Alone

section Idle

variable {ext : Externals} {P : Call → Prop} {db : Database} {spent : List Uuid} {σ : State}
  {pid : ℕ} {p : Process backend Call Reply} {ok : State → Label backend Call → Prop}

/-- A process that has ended holds no rows. -/
theorem session_of_finished (h : Running ext P anyKey σ) (hp : σ.procs pid = some p)
    (hf : p.Finished) : p.session = .fresh backend := by
  have hr := h.sound.replayed pid p hp
  rcases hf with ⟨v, hv⟩ | ⟨e, he⟩
  · have hruns : p.base.Runs ⟨Older, p.since, σ.db, σ.spent, anyKey⟩ (.fresh backend)
        (.value v p.session) := runs_of_replay hr.replay (by rw [hv]; rfl)
    have hstage := h.owned.stage pid p.toHeader (System.toAtomic_heads hp)
    rcases stops_of_stage hstage hruns with hstop | hb | ⟨e, hb⟩ | ⟨k, req, q, ws, -, hb, -, -⟩
    · exact hstop.elim
    · exact System.session_of_ended hr.replay (Or.inl hb)
    · rw [hb] at hruns
      contradiction
    · rw [hb] at hruns
      contradiction
  · exact System.session_of_ended hr.replay (Or.inr ⟨e, hr.raised e he⟩)

/-- No drain holds a row. -/
def Unheld (σ : State) : Prop :=
  ∀ pid p b, σ.procs pid = some p → p.call = .drain b → p.session.held = []

theorem unheld_of_finished (h : Running ext P anyKey σ)
    (hidle : ∀ pid p b, σ.procs pid = some p → p.call = .drain b → p.Finished) : Unheld σ := by
  intro pid p b hp hcall
  rw [session_of_finished h hp (hidle pid p b hp hcall)]
  rfl

/-- If no drain holds a row, the next one takes the first rows. -/
theorem Took.first_of_unheld {b : ℕ} {s : Database} {evs : List Outbox} (h : Took σ pid b s evs)
    (hheld : Unheld σ) : ∃ order : List Uuid, order.Perm ((unpublished s).map Outbox.id) ∧
      evs = (byCreation (unpublished s) order).take b := by
  obtain ⟨order, passed, horder, hpassed, hevs⟩ := h.taken
  refine ⟨order, horder, ?_⟩
  have hkeep : ∀ ev ∈ byCreation (unpublished s) order, decide (ev.id ∉ passed) = true := by
    intro ev _
    rw [decide_eq_true_eq]
    intro hid
    obtain ⟨pid', q, b', -, hq, hcall, hk⟩ := hpassed ev.id hid
    rw [hheld pid' q b' hq hcall] at hk
    exact absurd hk List.not_mem_nil
  rw [hevs, List.filter_eq_self.mpr hkeep]

end Idle

end ApexPayments.Service
