import ApexPayments.RowLocking.TwoPhase

/-!
Races for one row. Programs look a row up, without a lock, and insert it if it is missing.
Until one of them commits, each runs as if it were alone; from then on, the others find the
row, or their insert is refused as a duplicate.
-/
namespace RowLocking

variable {B : Backend} {C α β : Type}

namespace Prog

/-- The program waits for every row that it locks. -/
def Waits : Prog B α → Prop
  | .pure _ => True
  | .raise _ => True
  | .read next => ∀ s, (next s).Waits
  | .lock _ next => ∀ r, (next r).Waits
  | .tryLock _ _ => False
  | .stage _ next => next.Waits
  | .flush next => next.Waits
  | .draw next => ∀ i, (next i).Waits
  | .ask _ next => ∀ a, (next a).Waits
  | .call _ next => ∀ a, (next a).Waits
  | .commit next => next.Waits

theorem Waits.bind {p : Prog B α} {f : α → Prog B β} (hp : p.Waits) (hf : ∀ a, (f a).Waits) :
    (p >>= f).Waits := by
  change (p.bind f).Waits
  induction p with
  | pure a => exact hf a
  | raise e => trivial
  | read next ih => exact fun s => ih s (hp s)
  | lock k next ih => exact fun r => ih r (hp r)
  | tryLock k next ih => exact hp.elim
  | stage w next ih => exact ih hp
  | flush next ih => exact ih hp
  | draw next ih => exact fun i => ih i (hp i)
  | ask q next ih => exact fun a => ih a (hp a)
  | call q next ih => exact fun a => ih a (hp a)
  | commit next ih => exact ih hp

theorem waits_select (f : B.Store → α) : (select f).Waits := fun _ => trivial

theorem waits_lockRow (k : B.Key) : (lockRow k).Waits := fun _ => trivial

theorem waits_stageRow (w : Write B) : (stageRow w).Waits := trivial

theorem waits_flushAll : (flushAll : Prog B Unit).Waits := trivial

theorem waits_drawIdent : (drawIdent : Prog B B.Ident).Waits := fun _ => trivial

theorem waits_askFor (q : B.Query) : (askFor q).Waits := fun _ => trivial

theorem waits_callOut (q : B.Query) : (callOut q).Waits := fun _ => trivial

theorem waits_commitAll : (commitAll : Prog B Unit).Waits := trivial

theorem waits_stageRows (ws : List (Write B)) : (stageRows ws).Waits := by
  induction ws with
  | nil => trivial
  | cons w ws ih => exact ih

end Prog

section LocalStep

variable {s : B.Store} {free free' : B.Key → Bool} {issued issued' : List B.Ident} {o : Oracle B}
  {p p' : Prog B α} {L L' : Session B}

theorem waits_of_localStep (hp : p.Waits) (h : localStep s free issued o p L = some (p', L')) :
    p'.Waits := by
  cases p with
  | pure a => contradiction
  | raise e => contradiction
  | read next =>
    cases h
    exact hp _
  | lock k next =>
    simp only [localStep] at h
    split at h
    · cases h
      exact hp _
    · split at h
      · cases h
        exact hp _
      · contradiction
  | tryLock k next => exact hp.elim
  | stage w next =>
    cases h
    exact hp
  | flush next =>
    simp only [localStep] at h
    split at h
    · cases h
      exact hp
    · split at h
      · split at h
        · cases h
          trivial
        · cases h
          exact hp
      · contradiction
  | draw next =>
    simp only [localStep] at h
    split at h
    · contradiction
    · cases h
      exact hp _
  | ask q next =>
    cases h
    exact hp _
  | call q next => contradiction
  | commit next => contradiction

/-- A statement does the same where fewer rows are held and fewer identifiers are taken. -/
theorem localStep_mono (hp : p.Waits) (hfree : ∀ k, free k = true → free' k = true)
    (hissued : ∀ i ∈ issued', i ∈ issued) (h : localStep s free issued o p L = some (p', L')) :
    localStep s free' issued' o p L = some (p', L') := by
  cases p with
  | lock k next =>
    simp only [localStep] at h ⊢
    split at h
    · rename_i hnone
      simpa [hnone] using h
    · rename_i r hr
      by_cases hk : free k = true
      · simpa [hr, hk, hfree k hk] using h
      · simp [hk] at h
  | tryLock k next => exact hp.elim
  | flush next =>
    simp only [localStep] at h ⊢
    split at h
    · rename_i hnil
      simpa [hnil] using h
    · rename_i w ws hcons
      by_cases hk : free w.key = true
      · simpa [hcons, hk, hfree w.key hk] using h
      · simp [hk] at h
  | draw next =>
    simp only [localStep] at h ⊢
    by_cases hi : o.ident ∈ issued
    · simp [hi] at h
    · have hi' : o.ident ∉ issued' := fun hmem => hi (hissued _ hmem)
      simpa [hi, hi'] using h
  | pure a => exact h
  | raise e => exact h
  | read next => exact h
  | stage w next => exact h
  | ask q next => exact h
  | call q next => exact h
  | commit next => exact h

end LocalStep

namespace System

variable {program : C → Prog B α} {quiet : Oracle B → Prop} {db : B.Store} {spent : List B.Ident}
  {σ σ' τ : System B C α} {pid : ℕ}

/-- A step of one process, in surroundings that meet `quiet`. -/
def OnlyBy (quiet : Oracle B → Prop) (pid : ℕ) (_ : System B C α) (l : Label B C) : Prop :=
  l.pid = pid ∧ ¬ l.isCancel ∧ ∀ pid' o, l = .run pid' o → quiet o

/-- A run of one process that has brought it and the store where they are in `σ`. -/
structure Alone (program : C → Prog B α) (quiet : Oracle B → Prop) (db : B.Store)
    (spent : List B.Ident) (σ : System B C α) (pid : ℕ) (τ : System B C α) : Prop where
  run : Run program (OnlyBy quiet pid) (initial db spent) τ
  db : τ.db = σ.db
  procs : τ.procs pid = σ.procs pid
  issued : ∀ i ∈ τ.issued, i ∈ σ.issued
  locks : ∀ e ∈ τ.locks, e.2 = pid

/-- The process could have come where it is with no other process around. -/
def Solo (program : C → Prog B α) (quiet : Oracle B → Prop) (db : B.Store) (spent : List B.Ident)
    (σ : System B C α) (pid : ℕ) : Prop :=
  ∃ τ, Alone program quiet db spent σ pid τ

theorem solo_initial (pid : ℕ) : Solo program quiet db spent (initial db spent) pid :=
  ⟨initial db spent, .refl, rfl, rfl, fun _ hi => hi, by simp [initial]⟩

theorem Alone.free (h : Alone program quiet db spent σ pid τ) (k : B.Key) : τ.free pid k = true := by
  rw [free_iff]
  intro pid' hmem
  exact h.locks _ hmem

theorem locks_set_self (hlocks : ∀ e ∈ τ.locks, e.2 = pid) (p : Process B C α) :
    ∀ e ∈ (τ.set pid p).locks, e.2 = pid := by
  intro e he
  simp only [set, List.mem_append, List.mem_map, List.mem_filter] at he
  rcases he with ⟨k, -, rfl⟩ | ⟨he, -⟩
  · rfl
  · exact hlocks e he

/-- Another process moves and changes no row. -/
theorem Solo.others (h : Solo program quiet db spent σ pid) (hdb : σ'.db = σ.db)
    (hprocs : σ'.procs pid = σ.procs pid) (hissued : ∀ i ∈ σ.issued, i ∈ σ'.issued) :
    Solo program quiet db spent σ' pid := by
  obtain ⟨τ, hrun, hτ, hp, hi, hl⟩ := h
  exact ⟨τ, hrun, hτ.trans hdb.symm, hp.trans hprocs.symm, fun i hmem => hissued i (hi i hmem), hl⟩

/-- The state after one statement that neither raises nor commits. -/
theorem stepProcess_local {p : Process B C α} {o : Oracle B} {prog : Prog B α} {L : Session B}
    (he : ∀ e, prog ≠ .raise e)
    (hl : localStep σ.db (σ.free pid) σ.issued o p.prog p.session = some (prog, L)) :
    σ.stepProcess o pid p = some { σ.set pid { p with prog := prog, session := L } with
      issued := match p.prog with
        | .draw _ => o.ident :: σ.issued
        | _ => σ.issued } := by
  unfold stepProcess
  cases hprog : p.prog with
  | pure a | raise e | call q next | commit next =>
    rw [hprog] at hl
    contradiction
  | read next | lock k next | tryLock k next | stage w next | flush next | draw next | ask q next =>
    rw [hprog] at hl
    simp only [hl]

theorem stepProcess_refused {p : Process B C α} {o : Oracle B} {e : B.Error} {L : Session B}
    (hl : localStep σ.db (σ.free pid) σ.issued o p.prog p.session = some (.raise e, L)) :
    σ.stepProcess o pid p = some (σ.abort pid p e) := by
  unfold stepProcess
  cases hprog : p.prog with
  | pure a | raise e | call q next | commit next =>
    rw [hprog] at hl
    contradiction
  | read next | lock k next | tryLock k next | stage w next | flush next | draw next | ask q next =>
    rw [hprog] at hl
    simp only [hl]

/-- A process takes the same step with no other process around. -/
theorem Solo.step (h : Solo program quiet db spent σ pid) {l : Label B C}
    (hwaits : ∀ p, σ.procs pid = some p → p.prog.Waits) (hl : σ.step program l = some σ')
    (hok : OnlyBy quiet pid σ l) : Solo program quiet db spent σ' pid := by
  obtain ⟨τ, ha⟩ := h
  obtain ⟨act, hs⟩ := stepped_of_step hl
  obtain ⟨hpid, hcancel, hquiet⟩ := hok
  have hfree : ∀ k, σ.free pid k = true → τ.free pid k = true := fun k _ => ha.free k
  -- the process of the label, and the step that it takes alone
  have hstep : ∀ {p o τ'}, l = .run pid o → σ.procs pid = some p →
      τ.stepProcess o pid p = some τ' → Run program (OnlyBy quiet pid) (initial db spent) τ' := by
    intro p o τ' hlabel hp hτ'
    subst hlabel
    refine ha.run.tail ⟨.run pid o, ?_, rfl, hcancel, hquiet⟩
    rw [← ha.procs] at hp
    simpa only [System.step, hp] using hτ'
  cases hs with
  | start pid' c hp =>
    obtain rfl : pid' = pid := hpid
    refine ⟨τ.set pid' (.atBoundary ⟨c, τ.db, program c, []⟩), ha.run.tail ⟨.start pid' c, ?_, rfl,
      hcancel, hquiet⟩, ha.db, ?_, ha.issued, locks_set_self ha.locks _⟩
    · rw [← ha.procs] at hp
      simp only [System.step, hp]
    · rw [procs_set_self, procs_set_self, ha.db]
  | cancel pid' p hp hv he => exact absurd trivial hcancel
  | call pid' o p q next hp hq hL =>
    obtain rfl : pid' = pid := hpid
    have hτ : τ.stepProcess o pid' p = some (τ.set pid' (.atBoundary
        (p.toHeader.resume τ.db (next (o.answer q)) [.answered q (o.answer q)]))) := by
      obtain ⟨h₁, h₂, h₃, h₄⟩ := hL
      simp [stepProcess, hq, h₁, h₂, h₃, h₄]
    refine ⟨_, hstep rfl hp hτ, ha.db, ?_, ha.issued, locks_set_self ha.locks _⟩
    rw [procs_set_self, procs_set_self, ha.db]
  | commit pid' o p next hp hq hL hd =>
    obtain rfl : pid' = pid := hpid
    have hτ : τ.stepProcess o pid' p = some (τ.commit pid' p next) := by
      rw [← ha.db] at hd
      simp [stepProcess, hq, hL, hd]
    refine ⟨_, hstep rfl hp hτ, ?_, ?_, ha.issued, locks_set_self ha.locks _⟩
    · change view τ.db p.session.flushed = view σ.db p.session.flushed
      rw [ha.db]
    · refine (procs_set_self τ pid' _).trans (Eq.trans ?_ (procs_set_self σ pid' _).symm)
      rw [ha.db]
  | deferred pid' o p next e hp hq hL hd =>
    obtain rfl : pid' = pid := hpid
    have hτ : τ.stepProcess o pid' p = some (τ.abort pid' p e) := by
      rw [← ha.db] at hd
      simp [stepProcess, hq, hL, hd]
    refine ⟨_, hstep rfl hp hτ, ha.db, ?_, ha.issued, locks_set_self ha.locks _⟩
    rw [abort, abort, procs_set_self, procs_set_self, ha.db]
  | refused pid' o p e L hp hl' =>
    obtain rfl : pid' = pid := hpid
    have hl'' := localStep_mono (hwaits p hp) hfree ha.issued hl'
    rw [← ha.db] at hl''
    refine ⟨_, hstep rfl hp (stepProcess_refused hl''), ha.db, ?_, ha.issued,
      locks_set_self ha.locks _⟩
    rw [abort, abort, procs_set_self, procs_set_self, ha.db]
  | advance pid' o p prog L issued hp he hl' hi =>
    obtain rfl : pid' = pid := hpid
    have hl'' := localStep_mono (hwaits p hp) hfree ha.issued hl'
    rw [← ha.db] at hl''
    refine ⟨_, hstep rfl hp (stepProcess_local he hl''), ha.db, ?_, ?_, locks_set_self ha.locks _⟩
    · exact (procs_set_self τ pid' _).trans (procs_set_self σ pid' _).symm
    · intro i hmem
      change i ∈ issued
      rw [hi]
      cases hprog : p.prog with
      | draw next =>
        rw [hprog] at hmem
        exact (List.mem_cons.mp hmem).elim (fun h => h ▸ List.mem_cons_self ..)
          fun h => List.mem_cons_of_mem _ (ha.issued i h)
      | _ =>
        rw [hprog] at hmem
        exact ha.issued i hmem

end System

namespace Prog

/-- How a program goes on that ends its transaction without a write. -/
def answering : Except B.Error α → Prog B α
  | .error e => .raise e
  | .ok a => .flush (.commit (.pure a))

/-- The program looks the row `K` up. If it is there, the program ends with an answer; if
it is missing, the program inserts it at once. -/
inductive Checks (K : B.Key) (answer : B.Store → Except B.Error α) : Prog B α → Prop
  | draw (next : B.Ident → Prog B α) (h : ∀ i, Checks K answer (next i)) : Checks K answer (.draw next)
  | read (next : B.Store → Prog B α)
      (hsome : ∀ s, B.get s K ≠ none → next s = answering (answer s))
      (hnone : ∀ s, B.get s K = none → ∃ r rest, B.keyOf r = K ∧
        next s = .stage (.insert r) (.flush rest)) : Checks K answer (.read next)

end Prog

section Losing

variable {K : B.Key} {answer : B.Store → Except B.Error α} {Seen Seen' : B.Store → Prop}
  {p p' : Prog B α} {L L' : Session B}

/-- Where a program that has not inserted the row stands. -/
inductive Losing (K : B.Key) (answer : B.Store → Except B.Error α) (Seen : B.Store → Prop) :
    Prog B α → Session B → Prop
  | before (p : Prog B α) (L : Session B) (h : p.Checks K answer) (hL : L.flushed = [])
      (hp : L.pending = []) : Losing K answer Seen p L
  | missed (r : B.Row) (rest : Prog B α) (L : Session B) (hr : B.keyOf r = K) (hL : L.flushed = [])
      (hp : L.pending = []) : Losing K answer Seen (.stage (.insert r) (.flush rest)) L
  | staged (r : B.Row) (rest : Prog B α) (L : Session B) (hr : B.keyOf r = K) (hL : L.flushed = [])
      (hp : L.pending = [.insert r]) : Losing K answer Seen (.flush rest) L
  | found (s : B.Store) (a : α) (L : Session B) (hs : Seen s) (ha : answer s = .ok a)
      (hL : L.flushed = []) (hp : L.pending = []) : Losing K answer Seen (.flush (.commit (.pure a))) L
  | leaving (s : B.Store) (a : α) (L : Session B) (hs : Seen s) (ha : answer s = .ok a)
      (hL : L.flushed = []) : Losing K answer Seen (.commit (.pure a)) L

/-- The row has been inserted, in the open transaction. -/
def Inserted (K : B.Key) (L : Session B) : Prop := ∃ w ∈ L.flushed, w.key = K

theorem Losing.mono (h : Losing K answer Seen p L) (hmono : ∀ s, Seen s → Seen' s) :
    Losing K answer Seen' p L := by
  cases h with
  | before p L h hL hp => exact .before p L h hL hp
  | missed r rest L hr hL hp => exact .missed r rest L hr hL hp
  | staged r rest L hr hL hp => exact .staged r rest L hr hL hp
  | found s a L hs ha hL hp => exact .found s a L (hmono s hs) ha hL hp
  | leaving s a L hs ha hL => exact .leaving s a L (hmono s hs) ha hL

theorem Losing.flushed (h : Losing K answer Seen p L) : L.flushed = [] := by
  cases h <;> assumption

theorem flushed_of_localStep {s : B.Store} {free : B.Key → Bool} {issued : List B.Ident}
    {o : Oracle B} (h : localStep s free issued o p L = some (p', L')) :
    ∀ w ∈ L.flushed, w ∈ L'.flushed := by
  intro w hw
  cases p with
  | pure a | raise e | call q next | commit next => contradiction
  | read next | stage v next | ask q next =>
    cases h
    exact hw
  | lock k next | tryLock k next =>
    simp only [localStep] at h
    split at h
    · cases h
      exact hw
    · split at h <;> cases h <;> exact hw
  | flush next =>
    simp only [localStep] at h
    split at h
    · cases h
      exact hw
    · split at h
      · split at h
        · cases h
          exact hw
        · cases h
          exact List.mem_append_left _ hw
      · contradiction
  | draw next =>
    simp only [localStep] at h
    split at h
    · contradiction
    · cases h
      exact hw

/-- One statement: the program still stands so, or it has ended with the answer from a row
that it found, or it has inserted the row or was refused as it tried to. -/
theorem losing_step {s : B.Store} {free : B.Key → Bool} {issued : List B.Ident} {o : Oracle B}
    (h : Losing K answer Seen p L) (hs : B.get s K ≠ none → Seen s)
    (hl : localStep s free issued o p L = some (p', L')) :
    Losing K answer Seen p' L' ∨
      (∃ t e, Seen t ∧ answer t = .error e ∧ p' = .raise e) ∨
      ∃ r rest, p = .flush rest ∧ L.pending = [.insert r] ∧ B.keyOf r = K ∧
        (Inserted K L' ∧ B.get s K = none ∨ ∃ e, p' = .raise e) := by
  cases h with
  | before p L hc hL hp =>
    cases hc with
    | draw next hnext =>
      simp only [localStep] at hl
      split at hl
      · contradiction
      · cases hl
        exact Or.inl (.before _ _ (hnext _) hL hp)
    | read next hsome hnone =>
      simp only [localStep, hL] at hl
      cases hl
      change Losing K answer Seen (next s) (L.see s) ∨ _
      by_cases hget : B.get s K = none
      · obtain ⟨r, rest, hr, hnext⟩ := hnone s hget
        rw [hnext]
        exact Or.inl (.missed r rest _ hr hL hp)
      · have hnext := hsome s hget
        cases ha : answer s with
        | error e =>
          refine Or.inr (Or.inl ⟨s, e, hs hget, ha, ?_⟩)
          exact hnext.trans (by rw [ha]; rfl)
        | ok a =>
          rw [ha] at hnext
          rw [hnext]
          exact Or.inl (.found s a _ (hs hget) ha hL hp)
  | missed r rest L hr hL hp =>
    cases hl
    refine Or.inl (.staged r rest _ hr hL ?_)
    simp [Session.stage, hp]
  | staged r rest L hr hL hp =>
    simp only [localStep, hp, hL] at hl
    refine Or.inr (Or.inr ⟨r, rest, rfl, hp, hr, ?_⟩)
    split at hl
    · split at hl
      · cases hl
        exact Or.inr ⟨_, rfl⟩
      · rename_i haccept
        cases hl
        refine Or.inl ⟨⟨.insert r, by simp [Session.execute], hr⟩, ?_⟩
        by_contra hsome
        have hisSome : (B.get s (B.keyOf r)).isSome := by
          rw [hr]
          exact Option.isSome_iff_ne_none.mpr hsome
        change (if (B.get s (B.keyOf r)).isSome then some (B.duplicate r) else B.violation s r) = none
          at haccept
        rw [if_pos hisSome] at haccept
        contradiction
    · contradiction
  | found t a L ht ha hL hp =>
    simp only [localStep, hp] at hl
    cases hl
    exact Or.inl (.leaving t a _ ht ha hL)
  | leaving t a L ht ha hL => contradiction

end Losing

namespace System

section Race

variable {program : C → Prog B α} {quiet : Oracle B → Prop} {D : C → Prop} {K : B.Key}
  {answer : C → B.Store → Except B.Error α} {db : B.Store} {spent : List B.Ident}
  {σ σ' σ₀ : System B C α}

/-- Calls in `D` are started and run, in surroundings that meet `quiet`. -/
def Contends (D : C → Prop) (quiet : Oracle B → Prop) (_ : System B C α) (l : Label B C) : Prop :=
  (∀ pid c, l = .start pid c → D c) ∧ ¬ l.isCancel ∧ ∀ pid o, l = .run pid o → quiet o

/-- No statement inserts the row `K` once it is committed. -/
def Contest (D : C → Prop) (quiet : Oracle B → Prop) (K : B.Key) (σ : System B C α)
    (l : Label B C) : Prop :=
  Contends D quiet σ l ∧ ¬ Collides (· = K) σ l

/-- A store with the row that was committed in a run from `σ₀` to `σ`. -/
def SeenIn (program : C → Prog B α) (ok : System B C α → Label B C → Prop) (K : B.Key)
    (σ₀ σ : System B C α) (s : B.Store) : Prop :=
  ∃ t, Run program ok σ₀ t ∧ Run program ok t σ ∧ t.db = s ∧ B.get s K ≠ none

theorem SeenIn.step {ok : System B C α → Label B C → Prop} {l : Label B C} {s : B.Store}
    (h : SeenIn program ok K σ₀ σ s) (hl : σ.step program l = some σ') (hok : ok σ l) :
    SeenIn program ok K σ₀ σ' s := by
  obtain ⟨t, h₁, h₂, hs, hK⟩ := h
  exact ⟨t, h₁, h₂.tail ⟨l, hl, hok⟩, hs, hK⟩

/-- A process that has committed nothing. -/
def Idle (p : Process B C α) : Prop := ∀ ws, .committed ws ∈ p.trace → ws = []

/-- A process that has not inserted the row and has committed nothing. -/
structure Lost (K : B.Key) (answer : C → B.Store → Except B.Error α) (Seen : B.Store → Prop)
    (p : Process B C α) : Prop where
  idle : Idle p
  stands : Losing K (answer p.call) Seen p.prog p.session ∨
    ∃ s, Seen s ∧ p.prog = .ofResult (answer p.call s)

theorem Lost.mono {Seen Seen' : B.Store → Prop} {p : Process B C α} (h : Lost K answer Seen p)
    (hmono : ∀ s, Seen s → Seen' s) : Lost K answer Seen' p where
  idle := h.idle
  stands := by
    rcases h.stands with h | ⟨s, hs, hp⟩
    · exact Or.inl (h.mono hmono)
    · exact Or.inr ⟨s, hmono s hs, hp⟩

theorem Lost.losing {Seen : B.Store → Prop} {p : Process B C α} (h : Lost K answer Seen p)
    (hend : ∀ r, p.prog ≠ .ofResult r) : Losing K (answer p.call) Seen p.prog p.session := by
  rcases h.stands with h | ⟨s, -, hp⟩
  · exact h
  · exact absurd hp (hend _)

theorem not_losing_ended {Seen : B.Store → Prop} {a : B.Store → Except B.Error α} {L : Session B}
    (r : Except B.Error α) : ¬ Losing K a Seen (.ofResult r) L := by
  intro h
  generalize hp : Prog.ofResult r = p at h
  cases h with
  | before p L hc hL hpend => cases hc <;> cases r <;> contradiction
  | _ => cases r <;> contradiction

theorem idle_append {p : Process B C α} (h : Idle p) {s : B.Store} {next : Prog B α} :
    Idle (.atBoundary (p.toHeader.resume s next []) : Process B C α) := by
  intro ws hws
  have htrace : p.trace ++ [] = p.trace := List.append_nil _
  exact h ws (htrace ▸ hws)

/-- A process that has come where it is in a run of its own. -/
def RanAlone (program : C → Prog B α) (quiet : Oracle B → Prop) (db : B.Store)
    (spent : List B.Ident) (pid : ℕ) (p : Process B C α) : Prop :=
  ∃ τ, Run program (OnlyBy quiet pid) (initial db spent) τ ∧ τ.procs pid = some p

theorem Solo.ranAlone {pid : ℕ} {p : Process B C α} (h : Solo program quiet db spent σ pid)
    (hp : σ.procs pid = some p) : RanAlone program quiet db spent pid p := by
  obtain ⟨τ, hτ⟩ := h
  exact ⟨τ, hτ.run, hτ.procs.trans hp⟩

/-- Nobody has committed anything: every process might be alone. It has not inserted the
row, or is the only one that has, or has raised. -/
structure Undecided (program : C → Prog B α) (quiet : Oracle B → Prop) (K : B.Key)
    (answer : C → B.Store → Except B.Error α) (Seen : B.Store → Prop) (db : B.Store)
    (spent : List B.Ident) (σ : System B C α) : Prop where
  unchanged : σ.db = db
  solo : ∀ pid, Solo program quiet db spent σ pid
  stands : ∀ pid p, σ.procs pid = some p → Lost K answer Seen p ∨
    Idle p ∧ (Inserted K p.session ∧ B.get db K = none ∨ p.Raised)

/-- A process has committed the row; the others have lost. -/
structure Won (program : C → Prog B α) (quiet : Oracle B → Prop) (K : B.Key)
    (answer : C → B.Store → Except B.Error α) (Seen : B.Store → Prop) (db : B.Store)
    (spent : List B.Ident) (σ : System B C α) (winner : ℕ) : Prop where
  solo : Solo program quiet db spent σ winner
  wrote : ∃ p, σ.procs winner = some p ∧ ¬ Idle p
  missing : B.get db K = none
  present : B.get σ.db K ≠ none
  others : ∀ pid p, pid ≠ winner → σ.procs pid = some p → Lost K answer Seen p ∨
    Idle p ∧ p.Raised ∧ RanAlone program quiet db spent pid p

theorem get_view_ne_none {s : B.Store} {k : B.Key} {ws : List (Write B)}
    (h : B.get s k ≠ none ∨ ∃ w ∈ ws, w.key = k) : B.get (view s ws) k ≠ none := by
  induction ws generalizing s with
  | nil => exact h.resolve_right (by simp)
  | cons w ws ih =>
    refine @ih (B.put s w.row) ?_
    by_cases hk : k = B.keyOf w.row
    · left
      rw [hk, B.get_put_self]
      simp
    · rcases h with h | ⟨v, hv, hvk⟩
      · left
        rw [B.get_put_of_ne _ _ _ hk]
        exact h
      · rcases List.mem_cons.mp hv with rfl | hv
        · exact absurd hvk.symm hk
        · exact Or.inr ⟨v, hv, hvk⟩

/-- Locks are exclusive in every run, whatever the stores. -/
theorem sound_of_any_run {ok : System B C α → Label B C → Prop}
    (h : Run program ok (initial db spent) σ) : Sound (fun _ _ => True) (fun _ => True) σ := by
  induction h with
  | refl => exact sound_initial db spent
  | tail _ hstep ih =>
    obtain ⟨l, hl, -⟩ := hstep
    obtain ⟨act, hs⟩ := stepped_of_step hl
    exact sound_of_stepped (fun _ => trivial) (fun _ _ _ _ _ => trivial) ih hs
      (fun _ _ _ _ _ => trivial) trivial

theorem waits_of_run (hwaits : ∀ c, D c → (program c).Waits) {ok : System B C α → Label B C → Prop}
    (hstarts : ∀ σ l, ok σ l → ∀ pid c, l = .start pid c → D c)
    (h : Run program ok (initial db spent) σ) : ∀ pid p, σ.procs pid = some p → p.prog.Waits := by
  induction h with
  | refl =>
    intro pid p hp
    contradiction
  | @tail σ₁ σ₂ _ hstep ih =>
    obtain ⟨l, hl, hok⟩ := hstep
    obtain ⟨act, hs⟩ := stepped_of_step hl
    intro pid p hp
    by_cases hpid : pid = l.pid
    · subst hpid
      cases hs with
      | start pid c hnone =>
        obtain rfl := Option.some.inj ((procs_set_self σ₁ pid _).symm.trans hp)
        exact hwaits c (hstarts σ₁ _ hok pid c rfl)
      | cancel pid q hq hv he | deferred pid o q next e hq hprog hL hd | refused pid o q e L hq hl' =>
        obtain rfl := Option.some.inj ((procs_set_self σ₁ pid _).symm.trans hp)
        trivial
      | call pid o q query next hq hprog hL =>
        obtain rfl := Option.some.inj ((procs_set_self σ₁ pid _).symm.trans hp)
        have hwait := ih pid q hq
        rw [hprog] at hwait
        exact hwait _
      | commit pid o q next hq hprog hL hd =>
        obtain rfl := Option.some.inj ((procs_set_self σ₁ pid _).symm.trans hp)
        have hwait := ih pid q hq
        rw [hprog] at hwait
        exact hwait
      | advance pid o q prog L issued hq he hl' hi =>
        obtain rfl := Option.some.inj ((procs_set_self σ₁ pid _).symm.trans hp)
        exact waits_of_localStep (ih pid q hq) hl'
    · rw [hs.procs_of_ne hpid] at hp
      exact ih pid p hp

theorem issued_of_stepped {l : Label B C} {act : Option (Atomic.Act B C)}
    (h : Stepped program σ l act σ') : ∀ i ∈ σ.issued, i ∈ σ'.issued := by
  intro i hi
  cases h with
  | advance pid o p prog L issued hp he hl hissued =>
    change i ∈ issued
    rw [hissued]
    cases p.prog with
    | draw next => exact List.mem_cons_of_mem _ hi
    | _ => exact hi
  | _ => exact hi

/-- The history of a process grows. -/
theorem trace_of_stepped {l : Label B C} {act : Option (Atomic.Act B C)}
    (hs : Stepped program σ l act σ') {pid : ℕ} {p : Process B C α} (hp : σ.procs pid = some p) :
    ∃ p', σ'.procs pid = some p' ∧ ∃ es, p'.trace = p.trace ++ es := by
  by_cases hpid : pid = l.pid
  · subst hpid
    cases hs with
    | start pid c hnone =>
      rw [Label.pid, hnone] at hp
      contradiction
    | cancel pid q hq | deferred pid o q next e hq | refused pid o q e L hq | commit pid o q next hq
    | call pid o q query next hq =>
      obtain rfl := Option.some.inj (hq.symm.trans hp)
      exact ⟨_, procs_set_self σ pid _, _, rfl⟩
    | advance pid o q prog L issued hq =>
      obtain rfl := Option.some.inj (hq.symm.trans hp)
      exact ⟨_, procs_set_self σ pid _, [], (List.append_nil _).symm⟩
  · exact ⟨p, (hs.procs_of_ne hpid).trans hp, [], (List.append_nil _).symm⟩

variable (hchecks : ∀ c, D c → (program c).Checks K (answer c)) (hwaits : ∀ c, D c → (program c).Waits)
  (hdeferred : ∀ s, B.deferred s [] = none)

include hchecks in
theorem lost_of_start {c : C} (hc : D c) (s : B.Store) (Seen : B.Store → Prop) :
    Lost K answer Seen (.atBoundary ⟨c, s, program c, []⟩ : Process B C α) where
  idle := by
    intro ws hws
    simp [Process.atBoundary] at hws
  stands := Or.inl (.before _ _ (hchecks c hc) rfl rfl)

/-- A process that has lost commits nothing, and ends with its answer. -/
theorem lost_commit {Seen : B.Store → Prop} {p : Process B C α} {next : Prog B α}
    (h : Lost K answer Seen p) (hq : p.prog = .commit next) (s : B.Store) :
    p.session.flushed = [] ∧ Lost K answer Seen
      (.atBoundary (p.toHeader.resume s next [.committed p.session.flushed])) := by
  have hlosing := h.losing (Prog.ne_ofResult (by simp [hq]) (by simp [hq]))
  have hflushed := hlosing.flushed
  rw [hq] at hlosing
  refine ⟨hflushed, ?_, ?_⟩
  · intro ws hws
    rcases List.mem_append.mp hws with hws | hws
    · exact h.idle ws hws
    · cases List.mem_singleton.mp hws
      exact hflushed
  · cases hlosing with
    | before p L hc hL hp => cases hc
    | leaving t a L ht ha hL => exact Or.inr ⟨t, ht, congrArg Prog.ofResult ha.symm⟩

variable {l : Label B C} {act : Option (Atomic.Act B C)} {winner : ℕ}

/-- A step by which somebody raises changes no row and leaves the others as they are. -/
theorem Undecided.raise {Seen Seen' : B.Store → Prop} (h : Undecided program quiet K answer Seen db spent σ)
    (hmono : ∀ s, Seen s → Seen' s) {pid : ℕ} {p : Process B C α} {e : B.Error}
    (hp : σ.procs pid = some p) (hsolo : Solo program quiet db spent (σ.abort pid p e) pid)
    (hidle : Idle p) : Undecided program quiet K answer Seen' db spent (σ.abort pid p e) where
  unchanged := h.unchanged
  solo := by
    intro pid'
    by_cases hne : pid' = pid
    · exact hne ▸ hsolo
    · exact (h.solo pid').others rfl (Function.update_of_ne hne _ _) fun _ hi => hi
  stands := by
    intro pid' q hq
    by_cases hne : pid' = pid
    · subst hne
      obtain rfl := Option.some.inj ((procs_set_self σ pid' _).symm.trans hq)
      exact Or.inr ⟨idle_append hidle, Or.inr ⟨e, rfl⟩⟩
    · have hq' : σ.procs pid' = some q := (Function.update_of_ne hne _ _).symm.trans hq
      exact (h.stands pid' q hq').imp (fun hl => hl.mono hmono) id

/-- The first commit of the row: whoever else inserts it still waits for its lock. -/
theorem Undecided.won {Seen Seen' : B.Store → Prop}
    (h : Undecided program quiet K answer Seen db spent σ) (hmono : ∀ s, Seen s → Seen' s)
    (hsound : Sound (fun _ _ => True) (fun _ => True) σ) {pid : ℕ} {p : Process B C α}
    {next : Prog B α} (hp : σ.procs pid = some p) (hinserted : Inserted K p.session)
    (hmissing : B.get db K = none) (hsolo : Solo program quiet db spent (σ.commit pid p next) pid) :
    Won program quiet K answer Seen' db spent (σ.commit pid p next) pid where
  solo := hsolo
  wrote := by
    refine ⟨_, procs_set_self σ pid _, ?_⟩
    intro hidle
    obtain ⟨w, hw, -⟩ := hinserted
    have hnil : p.session.flushed = [] := hidle _ (List.mem_append_right _ (List.mem_singleton_self _))
    rw [hnil] at hw
    contradiction
  missing := hmissing
  present := get_view_ne_none (Or.inr hinserted)
  others := by
    intro pid' q hne hq
    have hq' : σ.procs pid' = some q := (Function.update_of_ne hne _ _).symm.trans hq
    rcases h.stands pid' q hq' with hl | ⟨hidle, ⟨hins, -⟩ | hraised⟩
    · exact Or.inl (hl.mono hmono)
    · have hheld : ∀ {pid p}, σ.procs pid = some p → Inserted K p.session → K ∈ p.session.held := by
        intro pid p hp hins
        obtain ⟨w, hw, rfl⟩ := hins
        exact flushed_held (hsound.replayed pid p hp).replay w hw
      exact absurd (hsound.rows_once pid' pid q p hq' hp K (hheld hq' hins) (hheld hp hinserted)) hne
    · exact Or.inr ⟨hidle, hraised, (h.solo pid').ranAlone hq'⟩

include hchecks in
theorem undecided_step {ok : System B C α → Label B C → Prop}
    (h : Undecided program quiet K answer (SeenIn program ok K σ₀ σ) db spent σ)
    (hrun : Run program ok σ₀ σ) (hsound : Sound (fun _ _ => True) (fun _ => True) σ)
    (hwaiting : ∀ pid p, σ.procs pid = some p → p.prog.Waits) (hl : σ.step program l = some σ')
    (hok : ok σ l) (hcontends : Contends D quiet σ l) :
    Undecided program quiet K answer (SeenIn program ok K σ₀ σ') db spent σ' ∨
      Won program quiet K answer (SeenIn program ok K σ₀ σ') db spent σ' l.pid := by
  obtain ⟨act, hs⟩ := stepped_of_step hl
  obtain ⟨hD, hcancel, hquiet⟩ := hcontends
  have hmono : ∀ s, SeenIn program ok K σ₀ σ s → SeenIn program ok K σ₀ σ' s :=
    fun s hseen => hseen.step hl hok
  have hsolo : Solo program quiet db spent σ' l.pid :=
    (h.solo l.pid).step (hwaiting l.pid) hl ⟨rfl, hcancel, hquiet⟩
  have hothers : ∀ pid, pid ≠ l.pid → σ'.procs pid = σ.procs pid := fun _ => hs.procs_of_ne
  have hissued := issued_of_stepped hs
  -- the process of the step stands anew, and no row is changed
  have hkeep : ∀ p', σ'.procs l.pid = some p' → σ'.db = db →
      (Lost K answer (SeenIn program ok K σ₀ σ') p' ∨
        Idle p' ∧ (Inserted K p'.session ∧ B.get db K = none ∨ p'.Raised)) →
      Undecided program quiet K answer (SeenIn program ok K σ₀ σ') db spent σ' := by
    intro p' hp' hdb hstands
    refine ⟨hdb, ?_, ?_⟩
    · intro pid
      by_cases hne : pid = l.pid
      · exact hne ▸ hsolo
      · exact (h.solo pid).others (hdb.trans h.unchanged.symm) (hothers pid hne) hissued
    · intro pid q hq
      by_cases hne : pid = l.pid
      · subst hne
        obtain rfl := Option.some.inj (hp'.symm.trans hq)
        exact hstands
      · rw [hothers pid hne] at hq
        exact (h.stands pid q hq).imp (fun hl => hl.mono hmono) id
  cases hs with
  | start pid c hp =>
    exact Or.inl (hkeep _ (procs_set_self σ pid _) h.unchanged
      (Or.inl (lost_of_start hchecks (hD pid c rfl) _ _)))
  | cancel pid p hp hv he => exact absurd trivial hcancel
  | call pid o p q next hp hq hL =>
    rcases h.stands pid p hp with hlost | ⟨-, ⟨⟨w, hw, -⟩, -⟩ | ⟨e, he⟩⟩
    · have hlosing := hlost.losing (Prog.ne_ofResult (by simp [hq]) (by simp [hq]))
      rw [hq] at hlosing
      cases hlosing with
      | before p L hc hL hp => cases hc
    · rw [hL.1] at hw
      contradiction
    · rw [hq] at he
      contradiction
  | commit pid o p next hp hq hL hd =>
    rcases h.stands pid p hp with hlost | ⟨hidle, ⟨hinserted, hmissing⟩ | ⟨e, he⟩⟩
    · obtain ⟨hflushed, hlost'⟩ := lost_commit hlost hq (view σ.db p.session.flushed)
      have hdb : view σ.db p.session.flushed = db := by
        rw [hflushed]
        exact h.unchanged
      exact Or.inl (hkeep _ (procs_set_self σ pid _) hdb (Or.inl (hlost'.mono hmono)))
    · exact Or.inr (h.won hmono hsound hp hinserted hmissing hsolo)
    · rw [hq] at he
      contradiction
  | deferred pid o p next e hp hq hL hd =>
    have hidle : Idle p := (h.stands pid p hp).elim (fun hlost => hlost.idle) fun h => h.1
    exact Or.inl (h.raise hmono hp hsolo hidle)
  | refused pid o p e L hp hl' =>
    have hidle : Idle p := (h.stands pid p hp).elim (fun hlost => hlost.idle) fun h => h.1
    exact Or.inl (h.raise hmono hp hsolo hidle)
  | advance pid o p prog L issued hp he hl' hi =>
    have hself := procs_set_self σ pid { p with prog := prog, session := L }
    refine Or.inl (hkeep _ hself h.unchanged ?_)
    rcases h.stands pid p hp with hlost | ⟨hidle, ⟨⟨w, hw, hkey⟩, hmissing⟩ | ⟨e, hraise⟩⟩
    · have hact := localStep_active hl'
      have hlosing := hlost.losing (Prog.ne_ofResult hact.1 hact.2)
      have hseen : B.get σ.db K ≠ none → SeenIn program ok K σ₀ σ σ.db :=
        fun hK => ⟨σ, hrun, .refl, rfl, hK⟩
      rcases losing_step hlosing hseen hl' with hlosing' | ⟨t, e, -, -, hraise⟩ |
        ⟨r, rest, -, -, -, ⟨hinserted, hnone⟩ | ⟨e, hraise⟩⟩
      · exact Or.inl ⟨hlost.idle, Or.inl (hlosing'.mono hmono)⟩
      · exact absurd hraise (he e)
      · exact Or.inr ⟨hlost.idle, Or.inl ⟨hinserted, h.unchanged ▸ hnone⟩⟩
      · exact absurd hraise (he e)
    · exact Or.inr ⟨hidle, Or.inl ⟨⟨w, flushed_of_localStep hl' w hw, hkey⟩, hmissing⟩⟩
    · rw [hraise] at hl'
      contradiction

include hchecks hdeferred in
theorem won_step (hcontest : Contest D quiet K σ l)
    (h : Won program quiet K answer (SeenIn program (Contest D quiet K) K σ₀ σ) db spent σ winner)
    (hrun : Run program (Contest D quiet K) σ₀ σ)
    (hwaiting : ∀ pid p, σ.procs pid = some p → p.prog.Waits) (hl : σ.step program l = some σ') :
    Won program quiet K answer (SeenIn program (Contest D quiet K) K σ₀ σ') db spent σ' winner := by
  obtain ⟨act, hs⟩ := stepped_of_step hl
  have hmono : ∀ s, SeenIn program (Contest D quiet K) K σ₀ σ s →
      SeenIn program (Contest D quiet K) K σ₀ σ' s := fun s hseen => hseen.step hl hcontest
  obtain ⟨⟨hD, hcancel, hquiet⟩, hcollides⟩ := hcontest
  have hothers : ∀ pid, pid ≠ l.pid → σ'.procs pid = σ.procs pid := fun _ => hs.procs_of_ne
  have hissued := issued_of_stepped hs
  by_cases hwinner : l.pid = winner
  · subst hwinner
    refine ⟨h.solo.step (hwaiting l.pid) hl ⟨rfl, hcancel, hquiet⟩, ?_, h.missing, ?_, ?_⟩
    · obtain ⟨p, hp, hwrote⟩ := h.wrote
      obtain ⟨p', hp', es, htrace⟩ := trace_of_stepped hs hp
      refine ⟨p', hp', fun hidle => hwrote ?_⟩
      intro ws hws
      exact hidle ws (htrace ▸ List.mem_append_left _ hws)
    · cases hs with
      | commit pid o p next hp hq hL hd => exact get_view_ne_none (Or.inl h.present)
      | _ => exact h.present
    · intro pid q hne hq
      rw [hothers pid hne] at hq
      exact (h.others pid q hne hq).imp (fun hl => hl.mono hmono) id
  -- a process that has lost takes a step
  have hkeep : ∀ p', σ'.procs l.pid = some p' → σ'.db = σ.db →
      Lost K answer (SeenIn program (Contest D quiet K) K σ₀ σ') p' →
      Won program quiet K answer (SeenIn program (Contest D quiet K) K σ₀ σ') db spent σ' winner := by
    intro p' hp' hdb hlost
    have hself := hothers winner (Ne.symm hwinner)
    refine ⟨h.solo.others hdb hself hissued, hself ▸ h.wrote, h.missing, hdb ▸ h.present, ?_⟩
    intro pid q hne hq
    by_cases hpid : pid = l.pid
    · subst hpid
      obtain rfl := Option.some.inj (hp'.symm.trans hq)
      exact Or.inl hlost
    · rw [hothers pid hpid] at hq
      exact (h.others pid q hne hq).imp (fun hl => hl.mono hmono) id
  have hstands : ∀ {p}, σ.procs l.pid = some p → (∀ r, p.prog ≠ .ofResult r) →
      Lost K answer (SeenIn program (Contest D quiet K) K σ₀ σ) p := by
    intro p hp hactive
    rcases h.others l.pid p hwinner hp with hlost | ⟨-, ⟨e, he⟩, -⟩
    · exact hlost
    · exact absurd he (hactive (.error e))
  cases hs with
  | start pid c hp =>
    exact hkeep _ (procs_set_self σ pid _) rfl (lost_of_start hchecks (hD pid c rfl) _ _)
  | cancel pid p hp hv he => exact absurd trivial hcancel
  | call pid o p q next hp hq hL =>
    have hactive := Prog.ne_ofResult (p := p.prog) (by simp [hq]) (by simp [hq])
    have hlosing := (hstands hp hactive).losing hactive
    rw [hq] at hlosing
    cases hlosing with
    | before p L hc hL hp => cases hc
  | commit pid o p next hp hq hL hd =>
    have hactive := Prog.ne_ofResult (p := p.prog) (by simp [hq]) (by simp [hq])
    obtain ⟨hflushed, hlost⟩ := lost_commit (hstands hp hactive) hq (view σ.db p.session.flushed)
    have hdb : view σ.db p.session.flushed = σ.db := by
      rw [hflushed]
      rfl
    exact hkeep _ (procs_set_self σ pid _) hdb (hlost.mono hmono)
  | deferred pid o p next e hp hq hL hd =>
    have hactive := Prog.ne_ofResult (p := p.prog) (by simp [hq]) (by simp [hq])
    rw [((hstands hp hactive).losing hactive).flushed] at hd
    have hnone := hdeferred σ.db
    rw [show B.deferred (view σ.db []) ([].filterMap Write.inserted) = B.deferred σ.db [] from rfl,
      hnone] at hd
    contradiction
  | refused pid o p e L hp hl' =>
    have hact := localStep_active hl'
    have hactive := Prog.ne_ofResult hact.1 hact.2
    have hlost := hstands hp hactive
    have hlosing := hlost.losing hactive
    have hseen : B.get σ.db K ≠ none → SeenIn program (Contest D quiet K) K σ₀ σ σ.db :=
      fun hK => ⟨σ, hrun, .refl, rfl, hK⟩
    rcases losing_step hlosing hseen hl' with hlosing' | ⟨t, e', ht, ha, hraise⟩ |
      ⟨r, rest, hprog, hpending, hr, -⟩
    · exact absurd hlosing' (not_losing_ended (.error e))
    · cases hraise
      exact hkeep _ (procs_set_self σ pid _) rfl ⟨idle_append hlost.idle,
        Or.inr ⟨t, hmono t ht, congrArg Prog.ofResult ha.symm⟩⟩
    · refine absurd ⟨p, rest, r, [], hp, hprog, hpending, hr, ?_⟩ hcollides
      rw [hlosing.flushed, hr]
      exact Option.isSome_iff_ne_none.mpr h.present
  | advance pid o p prog L issued hp he hl' hi =>
    have hact := localStep_active hl'
    have hactive := Prog.ne_ofResult hact.1 hact.2
    have hlost := hstands hp hactive
    have hseen : B.get σ.db K ≠ none → SeenIn program (Contest D quiet K) K σ₀ σ σ.db :=
      fun hK => ⟨σ, hrun, .refl, rfl, hK⟩
    have hself := procs_set_self σ pid { p with prog := prog, session := L }
    rcases losing_step (hlost.losing hactive) hseen hl' with hlosing' | ⟨t, e, -, -, hraise⟩ |
      ⟨r, rest, -, -, -, ⟨-, hnone⟩ | ⟨e, hraise⟩⟩
    · exact hkeep _ hself rfl ⟨hlost.idle, Or.inl (hlosing'.mono hmono)⟩
    · exact absurd hraise (he e)
    · exact absurd hnone h.present
    · exact absurd hraise (he e)

include hchecks hwaits hdeferred in
/-- In a race without collisions a process has run as if it were alone, or it has found the
row that another one had committed and ends with the answer from that row. -/
theorem race_of_run (h : Run program (Contest D quiet K) (initial db spent) σ) :
    (∀ pid p, σ.procs pid = some p →
      (RanAlone program quiet db spent pid p ∧ (Idle p → p.Raised ∨ Inserted K p.session ∨
        Lost K answer (SeenIn program (Contest D quiet K) K (initial db spent) σ) p)) ∨
      B.get db K = none ∧ Lost K answer (SeenIn program (Contest D quiet K) K (initial db spent) σ) p) ∧
    ∀ pid pid' p p', σ.procs pid = some p → σ.procs pid' = some p' → ¬ Idle p → ¬ Idle p' →
      pid = pid' := by
  have hstate : Undecided program quiet K answer
      (SeenIn program (Contest D quiet K) K (initial db spent) σ) db spent σ ∨
      ∃ winner, Won program quiet K answer
        (SeenIn program (Contest D quiet K) K (initial db spent) σ) db spent σ winner := by
    induction h with
    | refl =>
      refine Or.inl ⟨rfl, fun pid => solo_initial pid, ?_⟩
      intro pid p hp
      contradiction
    | @tail σ₁ σ₂ hrun hstep ih =>
      obtain ⟨l, hl, hok⟩ := hstep
      have hwaiting := waits_of_run hwaits (fun _ _ hok => hok.1.1) hrun
      rcases ih with hund | ⟨winner, hwon⟩
      · rcases undecided_step hchecks hund hrun (sound_of_any_run hrun) hwaiting hl hok hok.1 with
          hund' | hwon'
        · exact Or.inl hund'
        · exact Or.inr ⟨_, hwon'⟩
      · exact Or.inr ⟨winner, won_step hchecks hdeferred hok hwon hrun hwaiting hl⟩
  rcases hstate with hund | ⟨winner, hwon⟩
  · constructor
    · intro pid p hp
      refine Or.inl ⟨(hund.solo pid).ranAlone hp, fun _ => ?_⟩
      rcases hund.stands pid p hp with hlost | ⟨-, ⟨hinserted, -⟩ | hraised⟩
      · exact Or.inr (Or.inr hlost)
      · exact Or.inr (Or.inl hinserted)
      · exact Or.inl hraised
    intro pid pid' p p' hp hp' hne hne'
    exact absurd ((hund.stands pid p hp).elim (fun hlost => hlost.idle) fun h => h.1) hne
  · constructor
    · intro pid p hp
      by_cases hpid : pid = winner
      · subst hpid
        obtain ⟨q, hq, hwrote⟩ := hwon.wrote
        obtain rfl := Option.some.inj (hp.symm.trans hq)
        exact Or.inl ⟨hwon.solo.ranAlone hp, fun hidle => absurd hidle hwrote⟩
      · rcases hwon.others pid p hpid hp with hlost | ⟨-, hraised, halone⟩
        · exact Or.inr ⟨hwon.missing, hlost⟩
        · exact Or.inl ⟨halone, fun _ => Or.inl hraised⟩
    · have hidle : ∀ pid p, pid ≠ winner → σ.procs pid = some p → Idle p := fun pid p hne hp =>
        (hwon.others pid p hne hp).elim (fun hlost => hlost.idle) fun h => h.1
      intro pid pid' p p' hp hp' hne hne'
      have hwinner : ∀ {pid p}, σ.procs pid = some p → ¬ Idle p → pid = winner := by
        intro pid p hp hne
        by_contra hpid
        exact hne (hidle pid p hpid hp)
      exact (hwinner hp hne).trans (hwinner hp' hne').symm

end Race

section Alone

variable {program : C → Prog B α} {quiet : Oracle B → Prop} {db : B.Store} {spent : List B.Ident}
  {σ σ' : System B C α} {pid : ℕ}

/-- A lone process in its first transaction, or one that has raised in it. -/
structure InFirst (program : C → Prog B α) (s : B.Store) (used : List B.Ident) (pid : ℕ)
    (σ : System B C α) : Prop where
  sound : Sound Eq (fun _ => False) σ
  store : σ.db = s
  drawn : σ.spent = used
  only : ∀ pid', pid' ≠ pid → σ.procs pid' = none
  base : ∀ p, σ.procs pid = some p → p.base = program p.call ∨
    ∃ e L, p.base = .raise e ∧ (program p.call).Runs (.alone s used) (.fresh B) (.raised e L)

theorem skipsOnly_of_only (hsound : Sound Eq (fun _ => False) σ)
    (honly : ∀ pid', pid' ≠ pid → σ.procs pid' = none) {l : Label B C} :
    SkipsOnly (fun _ => False) σ l := by
  intro pid' o k _ hskips
  obtain ⟨p, next, r, hp, -, -, hheld⟩ := hskips
  have hpid : ∀ {pid₁ p₁}, σ.procs pid₁ = some p₁ → pid₁ = pid := by
    intro pid₁ p₁ hp₁
    by_contra hne
    rw [honly pid₁ hne] at hp₁
    contradiction
  have hfree : σ.free pid' k = true := by
    rw [free_iff]
    intro pid₁ hmem
    obtain ⟨p₁, hp₁, -⟩ := (hsound.locks k pid₁).mp hmem
    exact (hpid hp₁).trans (hpid hp).symm
  rw [hfree] at hheld
  contradiction

theorem InFirst.abort (h : InFirst program db spent pid σ)
    (hsound : Sound Eq (fun _ => False) σ') {p : Process B C α} {e : B.Error} {L : Session B}
    (hp : σ.procs pid = some p) (hσ' : σ' = σ.abort pid p e)
    (hactive : (∀ v, p.prog ≠ .pure v) ∧ ∀ e, p.prog ≠ .raise e)
    (hruns : p.base.Runs ⟨Eq, p.since, σ.db, σ.spent, fun _ => False⟩ (.fresh B) (.raised e L)) :
    InFirst program db spent pid σ' := by
  subst hσ'
  have hreplayed := h.sound.replayed pid p hp
  have hsince : p.since = σ.db := hreplayed.window
  rw [hsince, h.store, h.drawn] at hruns
  refine ⟨hsound, h.store, h.drawn, ?_, ?_⟩
  · intro pid' hne
    exact (Function.update_of_ne hne _ _).trans (h.only pid' hne)
  · intro q hq
    rw [System.abort, procs_set_self] at hq
    obtain rfl := Option.some.inj hq
    rcases h.base p hp with hb | ⟨e', L', hb, -⟩
    · exact Or.inr ⟨e, L, rfl, hb ▸ hruns⟩
    · exact absurd hb ((base_active hreplayed.replay hactive.1 hactive.2).2 e')

/-- One step: still in the first transaction, or past its end. -/
theorem inFirst_step (h : InFirst program db spent pid σ) {l : Label B C}
    (hl : σ.step program l = some σ') (hok : OnlyBy quiet pid σ l) :
    InFirst program db spent pid σ' ∨ ∃ p, σ'.procs pid = some p ∧ p.trace ≠ [] := by
  obtain ⟨act, hs⟩ := stepped_of_step hl
  obtain ⟨rfl, hcancel, -⟩ := hok
  have hskips : SkipsOnly (fun _ => False) σ l := skipsOnly_of_only h.sound h.only
  have honly : ∀ pid', pid' ≠ l.pid → σ'.procs pid' = none := fun pid' hne =>
    (hs.procs_of_ne hne).trans (h.only pid' hne)
  have hsound : σ'.db = σ.db → Sound Eq (fun _ => False) σ' := fun hdb =>
    sound_of_stepped (fun _ => rfl) (fun _ _ _ h₁ h₂ => h₁.trans h₂) h.sound hs hskips hdb.symm
  cases hs with
  | start pid c hp =>
    refine Or.inl ⟨hsound rfl, h.store, h.drawn, honly, ?_⟩
    intro q hq
    obtain rfl := Option.some.inj ((procs_set_self σ pid _).symm.trans hq)
    exact Or.inl rfl
  | cancel pid p hp hv he => exact absurd trivial hcancel
  | call pid o p q next hp hq hL =>
    exact Or.inr ⟨_, procs_set_self σ pid _, by simp [Process.atBoundary, Header.resume]⟩
  | commit pid o p next hp hq hL hd =>
    exact Or.inr ⟨_, procs_set_self σ pid _, by simp [Process.atBoundary, Header.resume]⟩
  | deferred pid o p next e hp hq hL hd =>
    have hactive : (∀ v, p.prog ≠ .pure v) ∧ ∀ e, p.prog ≠ .raise e := by simp [hq]
    exact Or.inl (h.abort (hsound rfl) hp rfl hactive (runs_of_deferred h.sound hp hq hL hd))
  | refused pid o p e L hp hl' =>
    exact Or.inl (h.abort (hsound rfl) hp rfl (localStep_active hl')
      (runs_of_refused h.sound (fun _ => rfl) hskips hp hl'))
  | advance pid o p prog L issued hp he hl' hi =>
    refine Or.inl ⟨hsound rfl, h.store, h.drawn, honly, ?_⟩
    intro q hq
    obtain rfl := Option.some.inj ((procs_set_self σ pid _).symm.trans hq)
    exact h.base p hp

/-- A lone process that has raised in its first transaction could have run there in one
piece. -/
theorem runs_of_ranAlone {p : Process B C α} {e : B.Error}
    (h : RanAlone program quiet db spent pid p) (hraise : p.prog = .raise e) (htrace : p.trace = []) :
    ∃ L, (program p.call).Runs (.alone db spent) (.fresh B) (.raised e L) := by
  obtain ⟨τ, hrun, hp⟩ := h
  have hstate : InFirst program db spent pid τ ∨ ∃ q, τ.procs pid = some q ∧ q.trace ≠ [] := by
    clear hp
    induction hrun with
    | refl =>
      refine Or.inl ⟨sound_initial db spent, rfl, rfl, fun _ _ => rfl, ?_⟩
      intro q hq
      contradiction
    | tail _ hstep ih =>
      obtain ⟨l, hl, hok⟩ := hstep
      rcases ih with hfirst | ⟨q, hq, hne⟩
      · exact inFirst_step hfirst hl hok
      · obtain ⟨act, hs⟩ := stepped_of_step hl
        obtain ⟨q', hq', es, htr⟩ := trace_of_stepped hs hq
        exact Or.inr ⟨q', hq', by simp [htr, hne]⟩
  rcases hstate with hfirst | ⟨q, hq, hne⟩
  · have hreplayed := hfirst.sound.replayed pid p hp
    have hbase : p.base = .raise e := hreplayed.raised e hraise
    rcases hfirst.base p hp with hb | ⟨e', L, hb, hruns⟩
    · refine ⟨.fresh B, ?_⟩
      rw [← hb, hbase]
      rfl
    · rw [hbase] at hb
      cases hb
      exact ⟨L, hruns⟩
  · obtain rfl := Option.some.inj (hp.symm.trans hq)
    exact absurd htrace hne

end Alone

end System

end RowLocking
