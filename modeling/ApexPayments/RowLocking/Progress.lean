import ApexPayments.RowLocking.Discipline
import ApexPayments.RowLocking.Races

/-!
Progress. A program whose policy lets it wait for no row comes to the end of its transaction
when its process runs alone, whatever rows the others hold.
-/
namespace RowLocking

variable {B : Backend} {C α : Type}

/-- No statement of the policy has to wait: locks are only tried, and what is written is held. -/
structure Policy.NeverWaits (P : Policy B) : Prop where
  locks : ∀ ks k, ¬ P.locks ks k
  executes : ∀ ks w, P.executes ks w → w.key ∈ ks

namespace System

variable {program : C → Prog B α} {P : Policy B} {Q : α → List B.Key → List (Write B) → Prop}
  {σ : System B C α} {pid : ℕ}

/-- Locks are exclusive, whatever the stores. -/
abbrev Exclusive (σ : System B C α) : Prop := Sound (fun _ _ => True) (fun _ => True) σ

theorem exclusive_of_step {σ' : System B C α} {l : Label B C} (h : Exclusive σ)
    (hl : σ.step program l = some σ') : Exclusive σ' := by
  obtain ⟨act, hs⟩ := stepped_of_step hl
  exact sound_of_stepped (fun _ => trivial) (fun _ _ _ _ _ => trivial) h hs
    (fun _ _ _ _ _ => trivial) trivial

/-- Any surroundings will do. -/
def anyOracle (_ : Oracle B) : Prop := True

/-- A statement that executes is a step of its process. -/
theorem step_of_localStep (program : C → Prog B α) {p : Process B C α} {o : Oracle B} {prog : Prog B α} {L : Session B}
    (hp : σ.procs pid = some p)
    (hl : localStep σ.db (σ.free pid) σ.issued o p.prog p.session = some (prog, L)) :
    ∃ σ₁, σ.step program (.run pid o) = some σ₁ ∧
      ((∃ p₁, σ₁.procs pid = some p₁ ∧ p₁.Finished) ∨
        σ₁.procs pid = some { p with prog := prog, session := L }) := by
  have hrun : ∀ {σ₁}, σ.stepProcess o pid p = some σ₁ → σ.step program (.run pid o) = some σ₁ := by
    intro σ₁ h
    simpa only [step, hp] using h
  by_cases hraise : ∃ e, prog = .raise e
  · obtain ⟨e, rfl⟩ := hraise
    refine ⟨_, hrun (stepProcess_refused hl), Or.inl ⟨_, procs_set_self σ pid _, ?_⟩⟩
    exact Or.inr ⟨e, rfl⟩
  · have he : ∀ e, prog ≠ .raise e := fun e h => hraise ⟨e, h⟩
    exact ⟨_, hrun (stepProcess_local he hl), Or.inr (procs_set_self σ pid _)⟩

/-- The process has ended, or has come to the end of its transaction. -/
def Arrived (h : Header B C α) (p : Process B C α) : Prop :=
  p.Finished ∨ (∃ q next, p.prog = .call q next) ∨ p.trace ≠ h.trace

/-- From here the process arrives when it runs alone. -/
def Arrives (program : C → Prog B α) (pid : ℕ) (h : Header B C α) (σ : System B C α) : Prop :=
  ∃ σ' p, Run program (OnlyBy anyOracle pid) σ σ' ∧ σ'.procs pid = some p ∧ Arrived h p

theorem arrives_of_arrived {h : Header B C α} {p : Process B C α} (hp : σ.procs pid = some p)
    (ha : Arrived h p) : Arrives program pid h σ := ⟨σ, p, .refl, hp, ha⟩

theorem Arrives.head {h : Header B C α} {σ₁ : System B C α} {o : Oracle B}
    (hl : σ.step program (.run pid o) = some σ₁) (ha : Arrives program pid h σ₁) :
    Arrives program pid h σ := by
  obtain ⟨σ', p, hrun, hp, harrived⟩ := ha
  refine ⟨σ', p, .head ⟨.run pid o, hl, rfl, ?_, ?_⟩ hrun, hp, harrived⟩
  · exact fun hc => hc
  · exact fun _ _ _ => trivial

/-- One statement, and what is left of the program. -/
theorem arrives_of_localStep {h : Header B C α} {p : Process B C α} {o : Oracle B} {prog : Prog B α}
    {L : Session B}
    (hsound : Exclusive σ) (hp : σ.procs pid = some p)
    (hl : localStep σ.db (σ.free pid) σ.issued o p.prog p.session = some (prog, L))
    (hrest : ∀ σ₁ : System B C α, Exclusive σ₁ →
      σ₁.procs pid = some { p with prog := prog, session := L } →
        Arrives program pid h σ₁) : Arrives program pid h σ := by
  obtain ⟨σ₁, hstep, ⟨p₁, hp₁, hfinished⟩ | hp₁⟩ := step_of_localStep program hp hl
  · exact .head hstep (arrives_of_arrived hp₁ (Or.inl hfinished))
  · exact .head hstep (hrest σ₁ (exclusive_of_step hsound hstep) hp₁)

/-- The staged statements write rows that are held, so they are executed one after the other. -/
theorem arrives_of_flush (hP : P.NeverWaits) (o : Oracle B) {h : Header B C α} {next : Prog B α}
    (hnext : ∀ (σ : System B C α) (p : Process B C α), Exclusive σ → σ.procs pid = some p →
      p.toHeader = h → p.prog = next → next.Obeys P Q p.session.held p.session.pending →
      p.session.pending = [] → Arrives program pid h σ) {ws : List (Write B)} {p : Process B C α}
    (hsound : Exclusive σ) (hp : σ.procs pid = some p) (hhead : p.toHeader = h)
    (hprog : p.prog = .flush next) (hws : p.session.pending = ws)
    (hexec : P.ExecutesAll p.session.held ws)
    (hobeys : next.Obeys P Q (holdAll p.session.held ws) []) : Arrives program pid h σ := by
  induction ws generalizing σ p with
  | nil =>
    have hl : localStep σ.db (σ.free pid) σ.issued o p.prog p.session = some (next, p.session) := by
      rw [hprog]
      simp only [localStep, hws]
    refine arrives_of_localStep hsound hp hl ?_
    intro σ₁ hsound₁ hp₁
    have hobeys' : next.Obeys P Q p.session.held p.session.pending := hws ▸ hobeys
    exact hnext σ₁ _ hsound₁ hp₁ hhead rfl hobeys' hws
  | cons w ws ih =>
    have hfree := hsound.free_of_held hp (hP.executes _ w hexec.1)
    cases hrejected : w.rejected (view σ.db p.session.flushed) with
    | some e =>
      have hl : localStep σ.db (σ.free pid) σ.issued o p.prog p.session =
          some (.raise e, p.session) := by
        rw [hprog]
        simp only [localStep, hws, hfree, hrejected, if_true]
      refine arrives_of_localStep hsound hp hl ?_
      exact fun σ₁ _ hp₁ => arrives_of_arrived hp₁ (Or.inl (Or.inr ⟨e, rfl⟩))
    | none =>
      have hl : localStep σ.db (σ.free pid) σ.issued o p.prog p.session =
          some (.flush next, p.session.execute w ws) := by
        rw [hprog]
        simp only [localStep, hws, hfree, hrejected, if_true]
      refine arrives_of_localStep hsound hp hl ?_
      intro σ₁ hsound₁ hp₁
      exact ih hsound₁ hp₁ hhead rfl rfl hexec.2 hobeys

/-- A process that waits for no row arrives when it runs alone. -/
theorem arrives (hP : P.NeverWaits) (hident : ∀ used : List B.Ident, ∃ i, i ∉ used)
    (hanswer : ∀ q, Nonempty (B.Answer q)) (prog : Prog B α) {clean : Bool} {h : Header B C α}
    {p : Process B C α} (hsound : Exclusive σ) (hp : σ.procs pid = some p) (hhead : p.toHeader = h)
    (hprog : p.prog = prog) (hobeys : prog.Obeys P Q p.session.held p.session.pending)
    (hcloses : prog.Closes clean) (hclean : clean = true → p.session.pending = []) :
    Arrives program pid h σ := by
  -- surroundings that supply an identifier which is not taken yet
  let o : List B.Ident → Oracle B := fun used => ⟨(hident used).choose, fun q => (hanswer q).some⟩
  induction prog generalizing σ p clean with
  | pure a => exact arrives_of_arrived hp (Or.inl (Or.inl ⟨a, hprog⟩))
  | raise e => exact arrives_of_arrived hp (Or.inl (Or.inr ⟨e, hprog⟩))
  | lock k next ih => exact absurd hobeys.1 (hP.locks _ k)
  | call q next ih => exact arrives_of_arrived hp (Or.inr (Or.inl ⟨q, next, hprog⟩))
  | read next ih =>
    have hl : localStep σ.db (σ.free pid) σ.issued (o σ.issued) p.prog p.session =
        some (next (view σ.db p.session.flushed), p.session.see σ.db) := by
      rw [hprog]
      rfl
    refine arrives_of_localStep hsound hp hl ?_
    exact fun σ₁ hsound₁ hp₁ => ih _ hsound₁ hp₁ hhead rfl (hobeys _) (hcloses _) hclean
  | tryLock k next ih =>
    obtain ⟨-, hnone, hsome⟩ := hobeys
    cases hget : B.get (view σ.db p.session.flushed) k with
    | none =>
      have hl : localStep σ.db (σ.free pid) σ.issued (o σ.issued) p.prog p.session =
          some (next none, p.session.see σ.db) := by
        rw [hprog]
        simp only [localStep, hget]
      refine arrives_of_localStep hsound hp hl ?_
      exact fun σ₁ hsound₁ hp₁ => ih _ hsound₁ hp₁ hhead rfl hnone (hcloses _) hclean
    | some r =>
      by_cases hfree : σ.free pid k = true
      · have hl : localStep σ.db (σ.free pid) σ.issued (o σ.issued) p.prog p.session =
            some (next (some r), p.session.hold k) := by
          rw [hprog]
          simp only [localStep, hget, hfree, if_true]
        refine arrives_of_localStep hsound hp hl ?_
        exact fun σ₁ hsound₁ hp₁ => ih _ hsound₁ hp₁ hhead rfl (hsome _ r hget) (hcloses _) hclean
      · have hl : localStep σ.db (σ.free pid) σ.issued (o σ.issued) p.prog p.session =
            some (next none, p.session) := by
          rw [hprog]
          simp only [localStep, hget, if_neg hfree]
        refine arrives_of_localStep hsound hp hl ?_
        exact fun σ₁ hsound₁ hp₁ => ih _ hsound₁ hp₁ hhead rfl hnone (hcloses _) hclean
  | stage w next ih =>
    have hl : localStep σ.db (σ.free pid) σ.issued (o σ.issued) p.prog p.session =
        some (next, p.session.stage w) := by
      rw [hprog]
      rfl
    refine arrives_of_localStep hsound hp hl ?_
    exact fun σ₁ hsound₁ hp₁ => ih hsound₁ hp₁ hhead rfl hobeys.2 hcloses (by simp)
  | flush next ih =>
    refine arrives_of_flush hP (o σ.issued) ?_ hsound hp hhead hprog rfl hobeys.1 hobeys.2
    exact fun σ₁ p₁ hsound₁ hp₁ hhead₁ hprog₁ hobeys₁ hnil =>
      ih hsound₁ hp₁ hhead₁ hprog₁ hobeys₁ hcloses fun _ => hnil
  | draw next ih =>
    have hl : localStep σ.db (σ.free pid) σ.issued (o σ.issued) p.prog p.session =
        some (next (o σ.issued).ident, p.session.draw (o σ.issued).ident) := by
      rw [hprog]
      exact if_neg (hident σ.issued).choose_spec
    refine arrives_of_localStep hsound hp hl ?_
    exact fun σ₁ hsound₁ hp₁ => ih _ hsound₁ hp₁ hhead rfl (hobeys _) (hcloses _) hclean
  | ask q next ih =>
    have hl : localStep σ.db (σ.free pid) σ.issued (o σ.issued) p.prog p.session =
        some (next ((o σ.issued).answer q), p.session) := by
      rw [hprog]
      rfl
    refine arrives_of_localStep hsound hp hl ?_
    exact fun σ₁ hsound₁ hp₁ => ih _ hsound₁ hp₁ hhead rfl (hobeys _) (hcloses _) hclean
  | commit next ih =>
    have hL : p.session.pending = [] := hclean hcloses
    cases hd : B.deferred (view σ.db p.session.flushed)
        (p.session.flushed.filterMap Write.inserted) with
    | some e =>
      have hl : σ.step program (.run pid (o σ.issued)) = some (σ.abort pid p e) := by
        simp [step, hp, stepProcess, hprog, hL, hd]
      exact .head hl (arrives_of_arrived (procs_set_self σ pid _) (Or.inl (Or.inr ⟨e, rfl⟩)))
    | none =>
      have hl : σ.step program (.run pid (o σ.issued)) = some (σ.commit pid p next) := by
        simp [step, hp, stepProcess, hprog, hL, hd]
      refine .head hl (arrives_of_arrived (procs_set_self σ pid _) (Or.inr (Or.inr ?_)))
      rw [← hhead]
      simp [Process.atBoundary, Header.resume]

/-- Only finitely many processes have started. -/
theorem exists_unstarted {ok : System B C α → Label B C → Prop} {db : B.Store}
    {spent : List B.Ident} (h : Run program ok (initial db spent) σ) :
    ∃ n, ∀ pid, n ≤ pid → σ.procs pid = none := by
  induction h with
  | refl => exact ⟨0, fun _ _ => rfl⟩
  | tail _ hstep ih =>
    obtain ⟨n, hn⟩ := ih
    obtain ⟨l, hl, -⟩ := hstep
    obtain ⟨act, hs⟩ := stepped_of_step hl
    refine ⟨max n (l.pid + 1), fun pid hpid => ?_⟩
    have hne : pid ≠ l.pid := by omega
    rw [hs.procs_of_ne hne]
    exact hn pid (by omega)

end System

end RowLocking
