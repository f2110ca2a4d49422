import ApexPayments.NextDrain
import ApexPayments.Posting

/-!
Drains one after the other. If nothing is added to the outbox meanwhile, each drain publishes
a full batch while there is one, so the unpublished rows run out after as many drains as there
are batches, and further drains return zero.
-/
namespace ApexPayments.Service

open Domain Store Payments Relay RowLocking

section Turns

variable {ext : Externals} {P : Call → Prop} {db : Database} {spent : List Uuid} {σ₀ σ₁ σ σ' : State}
  {pid b n : ℕ} {ok : State → Label backend Call → Prop} {counts : List ℕ}

/-- No step but a drain's changes the outbox. -/
def NoInserts (σ : State) (l : Label backend Call) : Prop :=
  ∀ p next, σ.procs l.pid = some p → p.prog = .commit next →
    (∃ b, p.call = .drain b) ∨ (view σ.db p.session.flushed).outbox = σ.db.outbox

/-- One drain takes steps, and nothing is added to the outbox meanwhile. -/
def Quietly (pid : ℕ) (σ : State) (l : Label backend Call) : Prop := SoleDrain pid σ l ∧ NoInserts σ l

/-- Drains with one batch size that have returned one after the other, and what they returned. -/
inductive InTurn (ext : Externals) (b : ℕ) (σ₀ : State) : List ℕ → State → Prop
  | start : InTurn ext b σ₀ [] σ₀
  | drain (counts : List ℕ) (σ₁ σ₂ : State) (pid n : ℕ) (p : Process backend Call Reply)
      (h : InTurn ext b σ₀ counts σ₁) (hnone : σ₁.procs pid = none)
      (hrun : System.Run (program ext) (Quietly pid) σ₁ σ₂) (hp : σ₂.procs pid = some p)
      (hcall : p.call = .drain b) (hprog : p.prog = pure (.drained n)) :
      InTurn ext b σ₀ (counts ++ [n]) σ₂

theorem length_publishAll {t : Time} {evs : List Outbox} {s : Database}
    (hnodup : (evs.map Outbox.id).Nodup)
    (hcurrent : ∀ ev ∈ evs, ev.publishedAt = none ∧ s.outbox.find? ev.id = some ev) :
    (view s (publishAll t evs)).outbox.rows.length = s.outbox.rows.length := by
  refine publishAll_induction (R := fun s s' => s'.outbox.rows.length = s.outbox.rows.length)
    (fun _ => rfl) (fun _ _ _ h h' => h'.trans h) t ?_ hnodup hcurrent
  intro s ev hfound _
  have hrows := s.outbox.rows_put_old (r := publish t ev) hfound
  change (s.outbox.put (publish t ev)).rows.length = _
  rw [hrows, List.length_map]

/-- A batch that is published is no longer unpublished, and all other rows are as they were. -/
theorem unpublished_publishAll {t : Time} {evs : List Outbox} {s : Database}
    (hnodup : (evs.map Outbox.id).Nodup)
    (hcurrent : ∀ ev ∈ evs, ev.publishedAt = none ∧ s.outbox.find? ev.id = some ev) :
    (unpublished s).Perm (evs ++ unpublished (view s (publishAll t evs))) := by
  have hrows : ∀ s : Database, (unpublished s).Nodup := fun s => (unpublished_nodup s).of_map
  have hafter : ∀ x, x ∈ unpublished (view s (publishAll t evs)) ↔
      x ∈ unpublished s ∧ x.id ∉ evs.map Outbox.id := by
    intro x
    rw [mem_unpublished, mem_unpublished, mem_publishAll hnodup]
    constructor
    · rintro ⟨⟨ev, hev, rfl⟩ | ⟨hx, hid⟩, hnew⟩
      · contradiction
      · exact ⟨⟨hx, hnew⟩, hid⟩
    · rintro ⟨⟨hx, hnew⟩, hid⟩
      exact ⟨Or.inr ⟨hx, hid⟩, hnew⟩
  rw [List.perm_ext_iff_of_nodup (hrows s) (hnodup.of_map.append (hrows _) ?_)]
  · intro x
    rw [List.mem_append, hafter]
    by_cases hid : x.id ∈ evs.map Outbox.id
    · obtain ⟨ev, hev, hsame⟩ := List.mem_map.mp hid
      obtain ⟨hnew, hfound⟩ := hcurrent ev hev
      constructor
      · intro hx
        have hmem := (mem_unpublished.mp hx).1
        rw [Table.eq_of_key_eq hmem (Table.mem_of_find? hfound) hsame.symm]
        exact Or.inl hev
      · rintro (hx | ⟨-, hnot⟩)
        · exact mem_unpublished.mpr ⟨Table.mem_of_find? (hcurrent x hx).2, (hcurrent x hx).1⟩
        · exact absurd hid hnot
    · constructor
      · exact fun hx => Or.inr ⟨hx, hid⟩
      · rintro (hx | ⟨hx, -⟩)
        · exact absurd (List.mem_map_of_mem hx) hid
        · exact hx
  · intro x hx hx'
    exact ((hafter x).mp hx').2 (List.mem_map_of_mem hx)

/-- The number of outbox rows stays the same. -/
theorem length_of_step (h : Running ext P anyKey σ) {l : Label backend Call}
    (hl : σ.step (program ext) l = some σ') (hno : NoInserts σ l) :
    σ'.db.outbox.rows.length = σ.db.outbox.rows.length := by
  rcases db_of_step h hl with hdb | ⟨pid, o, p, next, rfl, hp, hprog, -, hc, hdb⟩
  · rw [hdb]
  · rcases hno p next hp hprog with ⟨b, hb⟩ | hsame
    · cases outboxes_of_committed hc with
      | enqueued new hcall hrows hnew => exact absurd hb (hcall b)
      | drained b evs t hcall ht hd =>
        obtain ⟨s, order, hdrawn⟩ := hd.select
        rw [hdb, hd.flushed]
        exact length_publishAll hdrawn.nodup hdrawn.current
    · rw [hdb, hsame]

theorem length_of_run (h₁ : System.Run (program ext) ok (System.initial db spent) σ₁)
    (h : System.Run (program ext) (Quietly pid) σ₁ σ) :
    σ.db.outbox.rows.length = σ₁.db.outbox.rows.length := by
  induction h with
  | refl => rfl
  | @tail σ₂ σ₃ hrun hstep ih =>
    obtain ⟨l, hl, hok⟩ := hstep
    have hreached : System.Run (program ext) anyStep (System.initial db spent) σ₂ :=
      (h₁.mono fun _ _ _ => trivial).trans (System.Run.mono hrun fun _ _ _ => trivial)
    exact (length_of_step (running_of_run hreached) hl hok.2).trans ih

/-- How many rows a drain takes if nothing is held. -/
theorem Took.length_of_unheld {s : Database} {evs : List Outbox} (h : Took σ₁ pid b s evs)
    (hrows : s.outbox.rows = σ₁.db.outbox.rows) (hheld : Unheld σ₁) :
    evs.length = min b (unpublished σ₁.db).length := by
  obtain ⟨order, horder, rfl⟩ := h.first_of_unheld hheld
  have hsame : unpublished s = unpublished σ₁.db := by
    unfold unpublished
    rw [hrows]
  rw [List.length_take, (byCreation_perm (unpublished_nodup s) horder).length_eq, hsame]

/-- One turn: the drain publishes a full batch or all that is left. -/
theorem batch_of_turn (h₁ : System.Run (program ext) ok (System.initial db spent) σ₁)
    (hheld : Unheld σ₁) (hnone : σ₁.procs pid = none)
    (h : System.Run (program ext) (Quietly pid) σ₁ σ) {p : Process backend Call Reply}
    (hp : σ.procs pid = some p) (hcall : p.call = .drain b) (hprog : p.prog = pure (.drained n)) :
    n = min b (unpublished σ₁.db).length ∧
      (unpublished σ.db).length + n = (unpublished σ₁.db).length ∧ Unheld σ := by
  have hreached : System.Run (program ext) anyStep (System.initial db spent) σ :=
    (h₁.mono fun _ _ _ => trivial).trans (h.mono fun _ _ _ => trivial)
  obtain ⟨hdraining, hstill⟩ := draining_of_run True h₁ hnone
    (fun _ _ hok => ⟨hok.1, fun _ _ => trivial⟩) h
  obtain ⟨evs, s, hi, t, new, hbatch, rfl, -, hrows⟩ := hdraining.exists_batch hp hcall hprog
  -- nothing was added, so the drain saw the rows that were there at the start
  have hlength := length_of_run h₁ h
  rw [hrows, List.length_append, length_publishAll hbatch.nodup hbatch.current] at hlength
  have hle := hbatch.took.grown.length_le
  have hle' := hbatch.grow.length_le
  have hnew : new = [] := List.length_eq_zero_iff.mp (by omega)
  have hseen : σ₁.db.outbox.rows = s.outbox.rows := hbatch.took.grown.eq_of_length (by omega)
  have hcommitted : s.outbox.rows = hi.outbox.rows := hbatch.grow.eq_of_length (by omega)
  refine ⟨hbatch.took.length_of_unheld hseen.symm hheld, ?_, ?_⟩
  · have hbefore : unpublished hi = unpublished σ₁.db := by
      unfold unpublished
      rw [← hcommitted, ← hseen]
    have hafter : unpublished σ.db = unpublished (view hi (publishAll t evs)) := by
      unfold unpublished
      rw [hrows, hnew, List.append_nil]
    have hperm := (unpublished_publishAll (t := t) hbatch.nodup hbatch.current).length_eq
    rw [hbefore, List.length_append, ← hafter] at hperm
    omega
  · intro pid' q b' hq hcall'
    by_cases hne : pid' = pid
    · subst hne
      obtain rfl := Option.some.inj (hp.symm.trans hq)
      rw [session_of_finished (running_of_run hreached) hp (Or.inl ⟨_, hprog⟩)]
      rfl
    · rcases hstill pid' q b' hne hq hcall' with hq₁ | hnil
      · exact hheld pid' q b' hq₁ hcall'
      · exact hnil

/-- How many rows each drain has published, and how many are left. -/
theorem counts_of_inTurn (h₀ : System.Run (program ext) ok (System.initial db spent) σ₀)
    (hidle : ∀ pid p b, σ₀.procs pid = some p → p.call = .drain b → p.Finished)
    (h : InTurn ext b σ₀ counts σ) : System.Run (program ext) anyStep (System.initial db spent) σ ∧
      Unheld σ ∧ (unpublished σ.db).length = (unpublished σ₀.db).length - counts.length * b ∧
      counts = (List.range counts.length).map fun k => min b ((unpublished σ₀.db).length - k * b) := by
  have hstart : System.Run (program ext) anyStep (System.initial db spent) σ₀ :=
    h₀.mono fun _ _ _ => trivial
  induction h with
  | start => exact ⟨hstart, unheld_of_finished (running_of_run h₀) hidle, by simp, rfl⟩
  | drain counts σ₁ σ₂ pid n p h hnone hrun hp hcall hprog ih =>
    obtain ⟨hreached, hheld, hleft, hcounts⟩ := ih
    obtain ⟨hn, hless, hheld'⟩ := batch_of_turn hreached hheld hnone hrun hp hcall hprog
    refine ⟨hreached.trans (hrun.mono fun _ _ _ => trivial), hheld', ?_, ?_⟩
    · rw [List.length_append, List.length_singleton, Nat.succ_mul]
      omega
    · rw [List.length_append, List.length_singleton, List.range_succ, List.map_append, ← hcounts, hn,
        hleft]
      rfl

/-- A drain that takes every step goes on quietly. -/
theorem quietly_of_lone {p : Process backend Call Reply} (hp : σ₁.procs pid = some p)
    (hcall : p.call = .drain b) (h : System.Run (program ext) (System.OnlyBy System.anyOracle pid) σ₁ σ) :
    System.Run (program ext) (fun σ l => Quietly pid σ l ∧ ¬ l.isCancel) σ₁ σ ∧
      ∃ p', σ.procs pid = some p' ∧ p'.call = .drain b := by
  induction h with
  | refl => exact ⟨.refl, p, hp, hcall⟩
  | tail _ hstep ih =>
    obtain ⟨hrun, q, hq, hqcall⟩ := ih
    obtain ⟨l, hl, hpid, hcancel, -⟩ := hstep
    obtain ⟨act, hs⟩ := System.stepped_of_step hl
    obtain ⟨q', hq', -⟩ := System.trace_of_stepped hs hq
    refine ⟨hrun.tail ⟨l, hl, ⟨Or.inl hpid, ?_⟩, hcancel⟩, q', hq', ?_⟩
    · intro r next hr _
      rw [hpid] at hr
      obtain rfl := Option.some.inj (hq.symm.trans hr)
      exact Or.inl ⟨b, hqcall⟩
    · exact (System.call_of_stepped hs hq hq').trans hqcall

/-- A drain that has not committed has not arrived either. -/
theorem Draining.returned_of_arrived (h : Draining ext False σ₁ pid σ) {p : Process backend Call Reply}
    {hd : Head} (hp : σ.procs pid = some p) (hcall : p.call = .drain b) (ht : hd.trace = [])
    (harrived : System.Arrived hd p) : ∃ n, p.prog = pure (.drained n) := by
  cases h with
  | waiting hnone hgrow =>
    rw [hnone] at hp
    contradiction
  | busy q b' hq hcall' hbase ht' hsince hr =>
    obtain rfl := Option.some.inj (hq.symm.trans hp)
    have hbatch : q.base.Ensures ⟨Growing, q.since, σ.db, σ.spent, DrainHolds σ₁ pid⟩
        (.fresh backend) (Stop.Commits (fun _ => False) fun _ _ => True) := by
      rw [hbase]
      exact commits_mono (drain_ensures ext b') (fun _ h => h) fun _ _ _ => trivial
    have hstops : ∀ o, q.prog.Runs ⟨Growing, q.since, σ.db, σ.spent, DrainHolds σ₁ pid⟩
        q.session o → Stop.Commits (fun _ => False) (fun _ _ => True) o := fun o ho =>
      hbatch o (runs_of_replay hr.replay ho)
    exfalso
    rcases harrived with ⟨⟨v, hv⟩ | ⟨e, he⟩⟩ | ⟨query, next, hnext⟩ | htrace
    · exact hstops (.value v q.session) (by rw [hv]; rfl)
    · exact hstops (.raised e q.session) (by rw [he]; rfl)
    · exact hstops (.calling query next q.session) (by rw [hnext]; rfl)
    · exact htrace (ht'.trans ht.symm)
  | failed q b' e hq hcall' hprog hfaults => exact hfaults.elim
  | done q b' s hi evs new t hq hcall' hprog hbatch hpublished hrows =>
    obtain rfl := Option.some.inj (hq.symm.trans hp)
    exact ⟨_, hprog⟩
  | other q hq hcall' =>
    obtain rfl := Option.some.inj (hq.symm.trans hp)
    exact absurd hcall (hcall' b)

/-- In every state a drain can be started next, and if it takes every step it returns. -/
theorem exists_return (h₁ : System.Run (program ext) ok (System.initial db spent) σ₁)
    (hnone : σ₁.procs pid = none) (b : ℕ) : ∃ σ₂ σ p n,
      σ₁.step (program ext) (.start pid (.drain b)) = some σ₂ ∧
      System.Run (program ext) (System.OnlyBy System.anyOracle pid) σ₂ σ ∧
      σ.procs pid = some p ∧ p.call = .drain b ∧ p.prog = pure (.drained n) := by
  let head : Head := ⟨.drain b, σ₁.db, program ext (.drain b), []⟩
  let σ₂ : State := σ₁.set pid (.atBoundary head)
  have hp₂ : σ₂.procs pid = some (.atBoundary head) := System.procs_set_self σ₁ pid _
  have hl : σ₁.step (program ext) (.start pid (.drain b)) = some σ₂ := by
    simp only [System.step, hnone]
    rfl
  have hsound := System.exclusive_of_step (System.sound_of_any_run h₁) hl
  obtain ⟨σ, p, hrun, hp, harrived⟩ := System.arrives neverWaits_draining Ledger.exists_uuid
    Ledger.exists_answer _ hsound hp₂ rfl rfl (obeys_drain ext b) (closes_drain ext b) fun _ => rfl
  obtain ⟨hquiet, q, hq, hcall⟩ := quietly_of_lone hp₂ rfl hrun
  obtain rfl := Option.some.inj (hq.symm.trans hp)
  have hstart : System.Run (program ext) (fun σ l => SoleDrain pid σ l ∧ ¬ l.isCancel) σ₁ σ₂ :=
    .single ⟨_, hl, Or.inl rfl, fun h => h⟩
  have hwhole := hstart.trans (System.Run.mono hquiet fun _ _ hok => ⟨hok.1.1, hok.2⟩)
  obtain ⟨hdraining, -⟩ := draining_of_run False h₁ hnone
    (fun _ _ hok => ⟨hok.1, fun _ hc => hok.2 hc⟩) hwhole
  obtain ⟨n, hn⟩ := hdraining.returned_of_arrived hp hcall rfl harrived
  exact ⟨σ₂, σ, q, n, hl, hrun, hp, hcall, hn⟩

theorem exists_turn (h₁ : System.Run (program ext) ok (System.initial db spent) σ₁)
    (hnone : σ₁.procs pid = none) (b : ℕ) : ∃ σ p n, System.Run (program ext) (Quietly pid) σ₁ σ ∧
      σ.procs pid = some p ∧ p.call = .drain b ∧ p.prog = pure (.drained n) := by
  obtain ⟨σ₂, σ, p, n, hl, hrun, hp, hcall, hprog⟩ := exists_return h₁ hnone b
  have hp₂ : σ₂.procs pid = some (.atBoundary ⟨.drain b, σ₁.db, program ext (.drain b), []⟩) := by
    simp only [System.step, hnone] at hl
    obtain rfl := Option.some.inj hl
    exact System.procs_set_self σ₁ pid _
  obtain ⟨hquiet, -⟩ := quietly_of_lone hp₂ rfl hrun
  refine ⟨σ, p, n, .head ⟨_, hl, Or.inl rfl, ?_⟩ (hquiet.mono fun _ _ hok => hok.1), hp, hcall, hprog⟩
  intro q next hq _
  rw [Label.pid, hnone] at hq
  contradiction

/-- A store with three unpublished rows, the first of them created last. -/
def queuedDatabase : Database :=
  { sampleDatabase with
    outbox := ⟨[⟨2, "payment", 1, "payment.processing", [], 30, none⟩,
      ⟨3, "payment", 4, "payment.processing", [], 10, none⟩,
      ⟨5, "payment", 6, "payment.processing", [], 20, none⟩], by decide⟩ }

/-- Chains of drains of every length exist. -/
theorem exists_inTurn (h₀ : System.Run (program ext) ok (System.initial db spent) σ₀)
    (hidle : ∀ pid p b, σ₀.procs pid = some p → p.call = .drain b → p.Finished) (b k : ℕ) :
    ∃ counts σ, InTurn ext b σ₀ counts σ ∧ counts.length = k := by
  induction k with
  | zero => exact ⟨[], σ₀, .start, rfl⟩
  | succ k ih =>
    obtain ⟨counts, σ₁, hturns, hlength⟩ := ih
    obtain ⟨hreached, -⟩ := counts_of_inTurn h₀ hidle hturns
    obtain ⟨pid, hnone⟩ := System.exists_unstarted hreached
    have hunused : σ₁.procs pid = none := hnone pid le_rfl
    obtain ⟨σ, p, n, hrun, hp, hcall, hprog⟩ := exists_turn hreached hunused b
    refine ⟨counts ++ [n], σ, .drain counts σ₁ σ pid n p hturns hunused hrun hp hcall hprog, ?_⟩
    rw [List.length_append, hlength, List.length_singleton]

/-- The number of batches is rounded up. -/
theorem batches_le_iff (n k : ℕ) (hb : 0 < b) : (n + b - 1) / b ≤ k ↔ n ≤ k * b := by
  rw [Nat.div_le_iff_le_mul_add_pred hb, Nat.mul_comm]
  omega

/-- With no inserts and no concurrent worker, the drains that take rows are as many as there are
batches of unpublished rows, the later ones take none, and such drains can go on for ever. -/
theorem drains_in_turn (h₀ : System.Run (program ext) ok (System.initial db spent) σ₀)
    (hidle : ∀ pid p b, σ₀.procs pid = some p → p.call = .drain b → p.Finished) (hb : 0 < b) :
    (∀ counts σ, InTurn ext b σ₀ counts σ →
      (∀ k c, counts[k]? = some c → (c = 0 ↔ ((unpublished σ₀.db).length + b - 1) / b ≤ k)) ∧
      (unpublished σ.db = [] ↔ ((unpublished σ₀.db).length + b - 1) / b ≤ counts.length)) ∧
    ∀ k, ∃ counts σ, InTurn ext b σ₀ counts σ ∧ counts.length = k := by
  refine ⟨fun counts σ hturns => ?_, exists_inTurn h₀ hidle b⟩
  obtain ⟨-, -, hleft, hcounts⟩ := counts_of_inTurn h₀ hidle hturns
  refine ⟨fun k c hc => ?_, ?_⟩
  · rw [hcounts, List.getElem?_map] at hc
    obtain ⟨i, hi, rfl⟩ := Option.map_eq_some_iff.mp hc
    obtain ⟨hlt, hik⟩ := List.getElem?_eq_some_iff.mp hi
    rw [List.getElem_range] at hik
    subst hik
    rw [batches_le_iff _ _ hb]
    omega
  · rw [batches_le_iff _ _ hb, ← List.length_eq_zero_iff, hleft]
    omega

theorem drains_in_turn_sample :
    (unpublished queuedDatabase).length = 3 ∧
    (∀ counts σ, InTurn sampleExternals 2 (System.initial queuedDatabase []) counts σ →
      (∀ k c, counts[k]? = some c → (c = 0 ↔ (3 + 2 - 1) / 2 ≤ k)) ∧
      (unpublished σ.db = [] ↔ (3 + 2 - 1) / 2 ≤ counts.length)) ∧
    ∀ k, ∃ counts σ, InTurn sampleExternals 2 (System.initial queuedDatabase []) counts σ ∧
      counts.length = k := by
  have hrun : System.Run (program sampleExternals) anyStep (System.initial queuedDatabase [])
      (System.initial queuedDatabase []) := .refl
  exact ⟨rfl, drains_in_turn hrun (fun _ _ _ hp => nomatch hp) (by decide)⟩

end Turns

end ApexPayments.Service
