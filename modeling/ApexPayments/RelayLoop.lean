import ApexPayments.Delivery
import ApexPayments.Turns

/-!
`OutboxRelay.run_loop`: one drain after the other, with a pause when a drain has found nothing or
has failed, until the worker is stopped or cancelled. The loop is the single worker of the service.
It pauses only when everything is published that was there when its drain began, and a row waits
only for full batches of rows that are not younger.
-/
namespace ApexPayments.Service

open Domain Store Payments Relay RowLocking

section Loop

/-- Where the worker is: before the test of `_running`, in `drain_batch`, in `asyncio.sleep`, or
behind the loop. -/
inductive Stance where
  | testing
  | draining (pid : ℕ)
  | sleeping
  | ended
  deriving DecidableEq

/-- The service with its worker. -/
structure Loop where
  sys : State
  running : Bool
  stance : Stance

/-- A step of a call, the worker going on to its next await, `stop`, or the cancellation of the
worker's task. A drain that the worker starts runs as process `pid`. -/
inductive LoopLabel where
  | service (l : Label backend Call)
  | worker (pid : ℕ)
  | stop
  | cancel

/-- The default of `drain_batch`. -/
def batchSize : ℕ := 50

/-- What is left of the drain that the worker awaits. -/
def Loop.awaited (ℓ : Loop) : Option (Program Reply) :=
  match ℓ.stance with
  | .draining pid => (ℓ.sys.procs pid).map (·.prog)
  | _ => none

/-- Where the worker goes on once a drain has ended. An error is logged. -/
def afterDrain : Program Reply → Option Stance
  | .pure (.drained n) => some (if n = 0 then .sleeping else .testing)
  | .raise _ => some .sleeping
  | _ => none

def startsDrain : Label backend Call → Bool
  | .start _ (.drain _) => true
  | _ => false

namespace Loop

/-- The step of the service that a step of the loop takes. -/
def label (ℓ : Loop) : LoopLabel → Option (Label backend Call)
  | .service l => some l
  | .worker pid =>
      match ℓ.stance with
      | .testing => if ℓ.running then some (.start pid (.drain batchSize)) else none
      | _ => none
  | .stop => none
  | .cancel =>
      match ℓ.stance with
      | .draining pid => some (.cancel pid)
      | _ => none

/-- Cancelling the task rolls an open drain back and leaves the loop. -/
def step (ext : Externals) (ℓ : Loop) : LoopLabel → Option Loop
  | .service l =>
      if startsDrain l then none
      else (ℓ.sys.step (program ext) l).map fun σ => { ℓ with sys := σ }
  | .worker pid =>
      match ℓ.stance with
      | .testing =>
          if ℓ.running then
            (ℓ.sys.step (program ext) (.start pid (.drain batchSize))).map fun σ =>
              { ℓ with sys := σ, stance := .draining pid }
          else some { ℓ with stance := .ended }
      | .draining _ => (ℓ.awaited.bind afterDrain).map fun stance => { ℓ with stance := stance }
      | .sleeping => some { ℓ with stance := .testing }
      | .ended => none
  | .stop => some { ℓ with running := false }
  | .cancel =>
      match ℓ.stance with
      | .draining pid =>
          (ℓ.sys.step (program ext) (.cancel pid)).map fun σ => { ℓ with sys := σ, stance := .ended }
      | .sleeping => some { ℓ with stance := .ended }
      | _ => none

/-- The number of drains that return to the worker with the step. -/
def returns (ℓ : Loop) : LoopLabel → ℕ
  | .worker _ => if (ℓ.awaited.bind Prog.value?).isSome then 1 else 0
  | _ => 0

def initial (db : Database) (spent : List Uuid) : Loop := ⟨System.initial db spent, true, .testing⟩

end Loop

/-- Runs of the loop whose steps of the service meet a condition, and the number of drains that
have returned. -/
inductive Polled (ext : Externals) (ok : State → Label backend Call → Prop) (ℓ₀ : Loop) :
    ℕ → Loop → Prop
  | start : Polled ext ok ℓ₀ 0 ℓ₀
  | step (n : ℕ) (ℓ : Loop) (l : LoopLabel) (ℓ' : Loop) (h : Polled ext ok ℓ₀ n ℓ)
      (hok : ∀ l', ℓ.label l = some l' → ok ℓ.sys l') (hl : ℓ.step ext l = some ℓ') :
      Polled ext ok ℓ₀ (n + ℓ.returns l) ℓ'

end Loop

section Steps

variable {ext : Externals} {db : Database} {spent : List Uuid} {ℓ₀ ℓ ℓ' : Loop} {n : ℕ}
  {ok : State → Label backend Call → Prop} {l : LoopLabel}

/-- What a step of the loop does. -/
inductive Loop.Moves (ext : Externals) (ℓ ℓ' : Loop) : LoopLabel → Prop
  | service (l : Label backend Call) (hno : ∀ pid b, l ≠ .start pid (.drain b))
      (hs : ℓ.sys.step (program ext) l = some ℓ'.sys) (hrunning : ℓ'.running = ℓ.running)
      (hstance : ℓ'.stance = ℓ.stance) : Moves ext ℓ ℓ' (.service l)
  | starts (pid : ℕ) (htesting : ℓ.stance = .testing) (hrunning : ℓ.running = true)
      (hs : ℓ.sys.step (program ext) (.start pid (.drain batchSize)) = some ℓ'.sys)
      (hstance : ℓ'.stance = .draining pid) : Moves ext ℓ ℓ' (.worker pid)
  | awaits (pid pid' : ℕ) (p : Process backend Call Reply) (hdraining : ℓ.stance = .draining pid)
      (hp : ℓ.sys.procs pid = some p) (hafter : afterDrain p.prog = some ℓ'.stance)
      (hsys : ℓ'.sys = ℓ.sys) (hrunning : ℓ'.running = ℓ.running) : Moves ext ℓ ℓ' (.worker pid')
  | rests (l : LoopLabel) (hsys : ℓ'.sys = ℓ.sys) (hrunning : ℓ'.running = true → ℓ.running = true)
      (hstance : ℓ'.stance = ℓ.stance ∨ (∀ pid, ℓ.stance ≠ .draining pid) ∧
        ∀ pid, ℓ'.stance ≠ .draining pid) (hended : ℓ.stance = .ended → ℓ'.stance = .ended)
      (hreturns : ℓ.returns l = 0) : Moves ext ℓ ℓ' l
  | cancels (pid : ℕ) (hdraining : ℓ.stance = .draining pid)
      (hs : ℓ.sys.step (program ext) (.cancel pid) = some ℓ'.sys) (hrunning : ℓ'.running = ℓ.running)
      (hstance : ℓ'.stance = .ended) : Moves ext ℓ ℓ' .cancel

theorem moves_of_step (h : ℓ.step ext l = some ℓ') : Loop.Moves ext ℓ ℓ' l := by
  cases l with
  | service l =>
    unfold Loop.step at h
    dsimp only at h
    split at h
    · contradiction
    · rename_i hno
      obtain ⟨σ, hs, rfl⟩ := Option.map_eq_some_iff.mp h
      refine .service l ?_ hs rfl rfl
      intro pid b hl
      rw [hl] at hno
      exact hno rfl
  | worker pid =>
    unfold Loop.step at h
    dsimp only at h
    cases hstance : ℓ.stance with
    | testing =>
      simp only [hstance] at h
      split at h
      · rename_i hrunning
        obtain ⟨σ, hs, rfl⟩ := Option.map_eq_some_iff.mp h
        exact .starts pid hstance hrunning hs rfl
      · cases h
        refine .rests _ rfl (fun hr => hr) (Or.inr ⟨?_, ?_⟩) (fun _ => rfl) ?_
        · intro pid'
          simp [hstance]
        · intro pid'
          simp
        · simp [Loop.returns, Loop.awaited, hstance]
    | draining pid' =>
      simp only [hstance] at h
      obtain ⟨stance, hafter, rfl⟩ := Option.map_eq_some_iff.mp h
      obtain ⟨prog, hprog, hafter⟩ := Option.bind_eq_some_iff.mp hafter
      simp only [Loop.awaited, hstance] at hprog
      obtain ⟨p, hp, rfl⟩ := Option.map_eq_some_iff.mp hprog
      exact .awaits pid' pid p hstance hp hafter rfl rfl
    | sleeping =>
      simp only [hstance] at h
      cases h
      refine .rests _ rfl (fun hr => hr) (Or.inr ⟨?_, ?_⟩) ?_ ?_
      · intro pid'
        simp [hstance]
      · intro pid'
        simp
      · simp [hstance]
      · simp [Loop.returns, Loop.awaited, hstance]
    | ended =>
      simp only [hstance] at h
      contradiction
  | stop =>
    cases h
    exact .rests _ rfl (fun hr => absurd hr Bool.false_ne_true) (Or.inl rfl) (fun he => he) rfl
  | cancel =>
    unfold Loop.step at h
    dsimp only at h
    cases hstance : ℓ.stance with
    | draining pid =>
      simp only [hstance] at h
      obtain ⟨σ, hs, rfl⟩ := Option.map_eq_some_iff.mp h
      exact .cancels pid hstance hs rfl rfl
    | sleeping =>
      simp only [hstance] at h
      cases h
      refine .rests _ rfl (fun hr => hr) (Or.inr ⟨?_, ?_⟩) (fun _ => rfl) rfl
      · intro pid'
        simp [hstance]
      · intro pid'
        simp
    | testing | ended =>
      simp only [hstance] at h
      contradiction

theorem Polled.trans {n' : ℕ} (h : Polled ext ok ℓ₀ n ℓ) (h' : Polled ext ok ℓ n' ℓ') :
    Polled ext ok ℓ₀ (n + n') ℓ' := by
  induction h' with
  | start => exact h
  | step n' ℓ' l ℓ'' _ hok hl ih =>
    rw [← Nat.add_assoc]
    exact .step _ ℓ' l ℓ'' ih hok hl

theorem Polled.once (hok : ∀ l', ℓ.label l = some l' → ok ℓ.sys l') (hl : ℓ.step ext l = some ℓ') :
    Polled ext ok ℓ (ℓ.returns l) ℓ' := by
  have h : Polled ext ok ℓ (0 + ℓ.returns l) ℓ' := .step 0 ℓ l ℓ' .start hok hl
  rw [Nat.zero_add] at h
  exact h

theorem started_of_step {σ σ' : State} {pid : ℕ} {c : Call}
    (h : σ.step (program ext) (.start pid c) = some σ') :
    σ.procs pid = none ∧ ∃ p, σ'.procs pid = some p ∧ p.call = c := by
  obtain ⟨act, hs⟩ := System.stepped_of_step h
  cases hs with
  | start pid c hnone => exact ⟨hnone, _, System.procs_set_self .., rfl⟩

theorem finished_of_cancel {σ σ' : State} {pid : ℕ} {p : Process backend Call Reply}
    (h : σ.step (program ext) (.cancel pid) = some σ') (hp : σ'.procs pid = some p) :
    p.Finished := by
  obtain ⟨act, hs⟩ := System.stepped_of_step h
  cases hs with
  | cancel pid q hq =>
    obtain rfl := Option.some.inj ((System.procs_set_self ..).symm.trans hp)
    exact Or.inr ⟨_, rfl⟩

/-- A drain that has ended is not awaited any more. -/
theorem afterDrain_ne_draining {prog : Program Reply} {stance : Stance}
    (h : afterDrain prog = some stance) (pid : ℕ) : stance ≠ .draining pid := by
  unfold afterDrain at h
  split at h
  · cases h
    split
    · exact fun h => by contradiction
    · exact fun h => by contradiction
  · cases h
    exact fun h => by contradiction
  · contradiction

theorem finished_of_afterDrain {p : Process backend Call Reply} {stance : Stance}
    (h : afterDrain p.prog = some stance) : p.Finished := by
  unfold afterDrain at h
  split at h
  · rename_i n hprog
    exact Or.inl ⟨_, hprog⟩
  · rename_i e hprog
    exact Or.inr ⟨e, hprog⟩
  · contradiction

/-- The only drain at work is the one that the worker awaits. -/
structure Loop.Kept (ℓ : Loop) : Prop where
  own : ∀ pid, ℓ.stance = .draining pid → ∃ p, ℓ.sys.procs pid = some p ∧ p.call = .drain batchSize
  only : ∀ pid p b, ℓ.sys.procs pid = some p → p.call = .drain b → ¬ p.Finished →
    ℓ.stance = .draining pid

theorem Loop.kept_initial (db : Database) (spent : List Uuid) : (Loop.initial db spent).Kept where
  own pid h := by contradiction
  only pid p b hp := by contradiction

/-- No drain is at work unless the worker awaits one. -/
theorem Loop.Kept.ended (h : ℓ.Kept) (hstance : ∀ pid, ℓ.stance ≠ .draining pid) {pid b : ℕ}
    {p : Process backend Call Reply} (hp : ℓ.sys.procs pid = some p) (hcall : p.call = .drain b) :
    p.Finished := by
  by_contra hwork
  exact hstance pid (h.only pid p b hp hcall hwork)

theorem Loop.Kept.step (h : ℓ.Kept) (hm : Loop.Moves ext ℓ ℓ' l) : ℓ'.Kept := by
  cases hm with
  | service l hno hs hrunning hstance =>
    refine ⟨?_, ?_⟩
    · intro pid hpid
      rw [hstance] at hpid
      obtain ⟨p, hp, hcall⟩ := h.own pid hpid
      obtain ⟨act, hstepped⟩ := System.stepped_of_step hs
      obtain ⟨p', hp', -⟩ := System.trace_of_stepped hstepped hp
      exact ⟨p', hp', (System.call_of_stepped hstepped hp hp').trans hcall⟩
    · intro pid p b hp hcall hwork
      rw [hstance]
      rcases drain_of_step hs hp hcall hwork with ⟨hl, -⟩ | ⟨q, hq, hqcall, hqwork⟩
      · exact absurd hl (hno pid b)
      · exact h.only pid q b hq hqcall hqwork
  | starts pid htesting hrunning hs hstance =>
    refine ⟨?_, ?_⟩
    · intro pid' hpid
      rw [hstance] at hpid
      cases hpid
      exact (started_of_step hs).2
    · intro pid' p b hp hcall hwork
      rcases drain_of_step hs hp hcall hwork with ⟨hl, -⟩ | ⟨q, hq, hqcall, hqwork⟩
      · rw [hstance, (Label.start.inj hl).1]
      · have hdraining := h.only pid' q b hq hqcall hqwork
        rw [htesting] at hdraining
        contradiction
  | awaits pid pid' p hdraining hp hafter hsys hrunning =>
    refine ⟨fun pid'' hpid => absurd hpid (afterDrain_ne_draining hafter pid''), ?_⟩
    intro pid'' q b hq hcall hwork
    rw [hsys] at hq
    have hsame := hdraining.symm.trans (h.only pid'' q b hq hcall hwork)
    cases hsame
    obtain rfl := Option.some.inj (hp.symm.trans hq)
    exact absurd (finished_of_afterDrain hafter) hwork
  | rests l hsys hrunning hstance hended hreturns =>
    rcases hstance with hsame | ⟨hbefore, hafter⟩
    · refine ⟨?_, ?_⟩
      · intro pid hpid
        rw [hsys]
        exact h.own pid (hsame.symm.trans hpid)
      · intro pid p b hp hcall hwork
        rw [hsys] at hp
        exact hsame.trans (h.only pid p b hp hcall hwork)
    · refine ⟨fun pid hpid => absurd hpid (hafter pid), ?_⟩
      intro pid p b hp hcall hwork
      rw [hsys] at hp
      exact absurd (h.ended hbefore hp hcall) hwork
  | cancels pid hdraining hs hrunning hstance =>
    refine ⟨?_, ?_⟩
    · intro pid' hpid
      rw [hstance] at hpid
      contradiction
    · intro pid' p b hp hcall hwork
      rcases drain_of_step hs hp hcall hwork with ⟨hl, -⟩ | ⟨q, hq, hqcall, hqwork⟩
      · contradiction
      · have hsame := hdraining.symm.trans (h.only pid' q b hq hqcall hqwork)
        cases hsame
        exact absurd (finished_of_cancel hs hp) hwork

/-- A step of the loop leaves the service as it is, or it is a step of the service with one
worker. -/
theorem Loop.Kept.serves (h : ℓ.Kept) (hm : Loop.Moves ext ℓ ℓ' l) : ℓ'.sys = ℓ.sys ∨
    ∃ l', ℓ.label l = some l' ∧ ℓ.sys.step (program ext) l' = some ℓ'.sys ∧ SingleWorker ℓ.sys l' := by
  cases hm with
  | service l hno hs hrunning hstance =>
    exact Or.inr ⟨l, rfl, hs, fun pid b hl => absurd hl (hno pid b)⟩
  | starts pid htesting hrunning hs hstance =>
    refine Or.inr ⟨_, ?_, hs, ?_⟩
    · simp [Loop.label, htesting, hrunning]
    · intro pid' b _ pid'' p b' hp hcall
      refine h.ended ?_ hp hcall
      rw [htesting]
      exact fun _ h => by contradiction
  | awaits pid pid' p hdraining hp hafter hsys hrunning => exact Or.inl hsys
  | rests l hsys hrunning hstance hended hreturns => exact Or.inl hsys
  | cancels pid hdraining hs hrunning hstance =>
    refine Or.inr ⟨_, ?_, hs, fun pid' b hl => by contradiction⟩
    simp [Loop.label, hdraining]

/-- The loop is the single worker of the service. -/
theorem run_of_polled (h₀ : ℓ₀.Kept) (h : Polled ext ok ℓ₀ n ℓ) :
    System.Run (program ext) (fun σ l => ok σ l ∧ SingleWorker σ l) ℓ₀.sys ℓ.sys ∧ ℓ.Kept := by
  induction h with
  | start => exact ⟨.refl, h₀⟩
  | step n ℓ l ℓ' _ hok hl ih =>
    obtain ⟨hrun, hkept⟩ := ih
    have hm := moves_of_step hl
    refine ⟨?_, hkept.step hm⟩
    rcases hkept.serves hm with hsys | ⟨l', hlabel, hs, hsingle⟩
    · rw [hsys]
      exact hrun
    · exact hrun.tail ⟨l', hs, hok l' hlabel, hsingle⟩

end Steps

section Rounds

variable {ext : Externals} {db : Database} {spent : List Uuid} {ℓ₀ ℓ ℓ' : Loop} {n pid : ℕ}
  {ok : State → Label backend Call → Prop} {l : LoopLabel} {I : ℕ → State → Prop} {σ₁ : State}

/-- A drain that begins where no drain is at work. -/
structure Begins (ext : Externals) (db : Database) (spent : List Uuid) (pid : ℕ) (σ : State) : Prop where
  reached : System.Run (program ext) anyStep (System.initial db spent) σ
  none : σ.procs pid = none
  unheld : Unheld σ

/-- Where the loop is, if a property holds between its drains. -/
inductive Stands (ext : Externals) (db : Database) (spent : List Uuid) (I : ℕ → State → Prop) (n : ℕ)
    (ℓ : Loop) : Prop
  | between (hstance : ∀ pid, ℓ.stance ≠ .draining pid) (hI : I n ℓ.sys)
  | within (pid : ℕ) (σ₁ : State) (hstance : ℓ.stance = .draining pid)
      (hbegins : Begins ext db spent pid σ₁) (hI : I n σ₁)
      (hrun : System.Run (program ext) (SoleDrain pid) σ₁ ℓ.sys)

/-- Every step of the service keeps the property. -/
def KeptBySteps (ext : Externals) (db : Database) (spent : List Uuid) (I : State → Prop) : Prop :=
  ∀ σ l σ', System.Run (program ext) anyStep (System.initial db spent) σ → I σ →
    σ.step (program ext) l = some σ' → I σ'

theorem KeptBySteps.run {J : State → Prop} (h : KeptBySteps ext db spent J)
    (hreached : System.Run (program ext) anyStep (System.initial db spent) σ₁) (hJ : J σ₁)
    {ok : State → Label backend Call → Prop} {σ : State} (hrun : System.Run (program ext) ok σ₁ σ) :
    J σ := by
  induction hrun with
  | refl => exact hJ
  | @tail σ₂ σ₃ hrun hstep ih =>
    obtain ⟨l, hl, -⟩ := hstep
    exact h σ₂ l σ₃ (hreached.trans (System.Run.mono hrun fun _ _ _ => trivial)) ih hl

/-- A step of the loop. -/
theorem Stands.step (h : Stands ext db spent I n ℓ) (hkept : ℓ.Kept)
    (hreached : System.Run (program ext) anyStep (System.initial db spent) ℓ.sys)
    (hsteps : ∀ n, KeptBySteps ext db spent (I n))
    (hreturn : ∀ n σ₁ σ pid p k, Begins ext db spent pid σ₁ → I n σ₁ →
      System.Run (program ext) (SoleDrain pid) σ₁ σ → σ.procs pid = some p →
        p.call = .drain batchSize → p.prog = pure (.drained k) → I (n + 1) σ)
    (hm : Loop.Moves ext ℓ ℓ' l) : Stands ext db spent I (n + ℓ.returns l) ℓ' := by
  cases hm with
  | service l hno hs hrunning hstance =>
    cases h with
    | between hbefore hI =>
      refine .between ?_ (hsteps n _ l _ hreached hI hs)
      rw [hstance]
      exact hbefore
    | within pid σ₁ hdraining hbegins hI hrun =>
      refine .within pid σ₁ (hstance.trans hdraining) hbegins hI (hrun.tail ⟨l, hs, ?_⟩)
      by_cases hpid : l.pid = pid
      · exact Or.inl hpid
      · refine Or.inr fun q b hq hcall => ?_
        obtain ⟨act, hstepped⟩ := System.stepped_of_step hs
        by_cases hwork : q.Finished
        · exact hstepped.ne_of_finished hq hwork rfl
        · have hsame := hdraining.symm.trans (hkept.only l.pid q b hq hcall hwork)
          exact hpid (Stance.draining.inj hsame).symm
  | starts pid htesting hrunning hs hstance =>
    cases h with
    | between hbefore hI =>
      have hreturns : ℓ.returns (.worker pid) = 0 := by simp [Loop.returns, Loop.awaited, htesting]
      have hnone := (started_of_step hs).1
      rw [hreturns]
      refine .within pid ℓ.sys hstance ⟨hreached, hnone, ?_⟩ hI (.single ⟨_, hs, Or.inl rfl⟩)
      exact unheld_of_finished (running_of_run hreached) fun pid' p b hp hcall =>
        hkept.ended hbefore hp hcall
    | within pid' σ₁ hdraining hbegins hI hrun =>
      rw [htesting] at hdraining
      contradiction
  | awaits pid pid' p hdraining hp hafter hsys hrunning =>
    cases h with
    | between hbefore hI => exact absurd hdraining (hbefore pid)
    | within pid'' σ₁ hdraining' hbegins hI hrun =>
      cases hdraining.symm.trans hdraining'
      have hawaited : ℓ.awaited = some p.prog := by simp [Loop.awaited, hdraining, hp]
      refine .between (afterDrain_ne_draining hafter) ?_
      rw [hsys]
      cases hprog : p.prog with
      | pure v =>
        cases v with
        | drained k =>
          have hreturns : ℓ.returns (.worker pid') = 1 := by
            simp [Loop.returns, hawaited, hprog, Prog.value?]
          rw [hreturns]
          obtain ⟨q, hq, hcall⟩ := hkept.own pid hdraining
          obtain rfl := Option.some.inj (hp.symm.trans hq)
          exact hreturn n σ₁ ℓ.sys pid p k hbegins hI hrun hp hcall hprog
        | _ =>
          rw [hprog] at hafter
          contradiction
      | raise e =>
        have hreturns : ℓ.returns (.worker pid') = 0 := by
          simp [Loop.returns, hawaited, hprog, Prog.value?]
        rw [hreturns]
        exact (hsteps n).run hbegins.reached hI hrun
      | _ =>
        rw [hprog] at hafter
        contradiction
  | rests l hsys hrunning hstance hended hreturns =>
    rw [hreturns]
    cases h with
    | between hbefore hI =>
      refine .between ?_ (hsys ▸ hI)
      rcases hstance with hsame | ⟨-, hafter⟩
      · rw [hsame]
        exact hbefore
      · exact hafter
    | within pid σ₁ hdraining hbegins hI hrun =>
      rcases hstance with hsame | ⟨hbefore, -⟩
      · exact .within pid σ₁ (hsame.trans hdraining) hbegins hI (hsys ▸ hrun)
      · exact absurd hdraining (hbefore pid)
  | cancels pid hdraining hs hrunning hstance =>
    cases h with
    | between hbefore hI => exact absurd hdraining (hbefore pid)
    | within pid' σ₁ hdraining' hbegins hI hrun =>
      refine .between ?_ (hsteps n _ _ _ hreached ((hsteps n).run hbegins.reached hI hrun) hs)
      rw [hstance]
      exact fun _ h => by contradiction

/-- The rule of the loop: what holds where it begins, and what every step and every drain that
returns keep, holds wherever it stands. -/
theorem stands_of_polled (h₀ : ℓ₀.Kept)
    (hreached : System.Run (program ext) anyStep (System.initial db spent) ℓ₀.sys)
    (hstance : ∀ pid, ℓ₀.stance ≠ .draining pid) (hI : I 0 ℓ₀.sys)
    (hsteps : ∀ n, KeptBySteps ext db spent (I n))
    (hreturn : ∀ n σ₁ σ pid p k, Begins ext db spent pid σ₁ → I n σ₁ →
      System.Run (program ext) (SoleDrain pid) σ₁ σ → σ.procs pid = some p →
        p.call = .drain batchSize → p.prog = pure (.drained k) → I (n + 1) σ)
    (h : Polled ext ok ℓ₀ n ℓ) : Stands ext db spent I n ℓ := by
  induction h with
  | start => exact .between hstance hI
  | step n ℓ l ℓ' h _ hl ih =>
    obtain ⟨hrun, hkept⟩ := run_of_polled h₀ h
    exact ih.step hkept (hreached.trans (hrun.mono fun _ _ _ => trivial)) hsteps hreturn
      (moves_of_step hl)

end Rounds

section Rows

variable {ext : Externals} {db : Database} {spent : List Uuid} {s s' : Database} {σ₁ σ : State}
  {n pid : ℕ} {p : Process backend Call Reply} {ev : Outbox} {τ : Time}

/-- The row is there, perhaps published by now. -/
def Persists (ev : Outbox) (s : Database) : Prop := ∃ ev' ∈ s.outbox.rows, SameEvent ev ev'

/-- The row is there, and it is published. -/
def IsPublished (ev : Outbox) (s : Database) : Prop :=
  ∃ ev' ∈ s.outbox.rows, SameEvent ev ev' ∧ ev'.publishedAt.isSome

/-- The number of published rows that were created at a time or before. -/
def publishedUpTo (τ : Time) (s : Database) : ℕ :=
  (s.outbox.rows.filter (·.publishedAt.isSome)).countP (·.createdAt ≤ τ)

/-- Rows keep their contents, and more are published or added. -/
theorem publishedUpTo_le {f : Outbox → Outbox} {new : List Outbox}
    (hrows : s'.outbox.rows = s.outbox.rows.map f ++ new)
    (hsame : ∀ ev ∈ s.outbox.rows, SameEvent ev (f ev)) : publishedUpTo τ s ≤ publishedUpTo τ s' := by
  have hle : s.outbox.rows.countP (fun ev => decide (ev.createdAt ≤ τ) && ev.publishedAt.isSome) ≤
      s.outbox.rows.countP
        ((fun ev => decide (ev.createdAt ≤ τ) && ev.publishedAt.isSome) ∘ f) := by
    refine List.countP_mono_left fun ev hev hcounted => ?_
    obtain ⟨hcreated, hpublished⟩ := Bool.and_eq_true_iff.mp hcounted
    have honce := (hsame ev hev).once hpublished
    rw [Function.comp_apply, honce, hcreated, hpublished]
    rfl
  unfold publishedUpTo
  rw [hrows, List.countP_filter, List.countP_filter, List.countP_append, List.countP_map]
  omega

theorem publishedUpTo_grow {new : List Outbox} (hrows : s'.outbox.rows = s.outbox.rows ++ new) :
    publishedUpTo τ s ≤ publishedUpTo τ s' := by
  have hmap : s'.outbox.rows = s.outbox.rows.map id ++ new := by
    rw [List.map_id]
    exact hrows
  exact publishedUpTo_le hmap fun ev _ => SameEvent.refl ev

theorem publishedUpTo_steps (ev : Outbox) (m : ℕ) :
    KeptBySteps ext db spent fun σ => m ≤ publishedUpTo ev.createdAt σ.db := by
  intro σ l σ' hreached hm hl
  obtain ⟨f, new, hrows, hsame, -⟩ := rows_of_step (running_of_run hreached) hl
  exact hm.trans (publishedUpTo_le hrows hsame)

theorem persists_steps (ev : Outbox) : KeptBySteps ext db spent fun σ => Persists ev σ.db := by
  intro σ l σ' hreached ⟨x, hx, hev⟩ hl
  obtain ⟨f, new, hrows, hsame, -⟩ := rows_of_step (running_of_run hreached) hl
  refine ⟨f x, ?_, hev.trans (hsame x hx)⟩
  rw [hrows]
  exact List.mem_append_left _ (List.mem_map_of_mem hx)

theorem isPublished_steps (ev : Outbox) : KeptBySteps ext db spent fun σ => IsPublished ev σ.db := by
  intro σ l σ' hreached ⟨x, hx, hev, hpublished⟩ hl
  obtain ⟨f, new, hrows, hsame, -⟩ := rows_of_step (running_of_run hreached) hl
  refine ⟨f x, ?_, hev.trans (hsame x hx), ?_⟩
  · rw [hrows]
    exact List.mem_append_left _ (List.mem_map_of_mem hx)
  · rw [(hsame x hx).once hpublished]
    exact hpublished

/-- A batch that is published adds to the published rows. -/
theorem publishedUpTo_publishAll {t : Time} {evs : List Outbox} (hnodup : (evs.map Outbox.id).Nodup)
    (hcurrent : ∀ ev ∈ evs, ev.publishedAt = none ∧ s.outbox.find? ev.id = some ev) :
    publishedUpTo τ (view s (publishAll t evs)) =
      publishedUpTo τ s + evs.countP (·.createdAt ≤ τ) := by
  have hall : ∀ s : Database, s.outbox.rows.countP (·.createdAt ≤ τ) =
      publishedUpTo τ s + (unpublished s).countP (·.createdAt ≤ τ) := by
    intro s
    unfold publishedUpTo unpublished
    rw [List.countP_eq_countP_filter_add s.outbox.rows _ fun ev => ev.publishedAt.isSome]
    simp only [Option.not_isSome]
  have htotal : (view s (publishAll t evs)).outbox.rows.countP (·.createdAt ≤ τ) =
      s.outbox.rows.countP (·.createdAt ≤ τ) := by
    obtain ⟨f, hrows, hsame⟩ := outbox_publishAll (t := t) hnodup hcurrent
    rw [hrows, List.countP_map]
    refine List.countP_congr fun ev hev => ?_
    rw [Function.comp_apply, (hsame ev hev).content]
  have hperm := (unpublished_publishAll (t := t) hnodup hcurrent).countP_eq (·.createdAt ≤ τ)
  rw [List.countP_append] at hperm
  have hbefore := hall s
  have hafter := hall (view s (publishAll t evs))
  omega

/-- A drain that returns leaves no row waiting unless it has published a full batch of rows that are
not younger. -/
theorem publishes_or_full (hbegins : Begins ext db spent pid σ₁)
    (hrun : System.Run (program ext) (SoleDrain pid) σ₁ σ) (hp : σ.procs pid = some p) {b k : ℕ}
    (hcall : p.call = .drain b) (hprog : p.prog = pure (.drained k)) {x : Outbox}
    (hx : x ∈ σ₁.db.outbox.rows) : IsPublished x σ.db ∨
      k = b ∧ publishedUpTo x.createdAt σ₁.db + b ≤ publishedUpTo x.createdAt σ.db := by
  by_cases hpublished : x.publishedAt.isSome
  · exact Or.inl ((isPublished_steps x).run hbegins.reached ⟨x, hx, .refl x, hpublished⟩ hrun)
  · have hnew : x.publishedAt = none := by simpa using hpublished
    obtain ⟨hdraining, -⟩ := draining_of_run True hbegins.reached hbegins.none
      (fun _ _ hok => ⟨hok, fun _ _ => trivial⟩) hrun
    obtain ⟨evs, s, hi, t, new, hbatch, rfl, -, hrows⟩ := hdraining.exists_batch hp hcall hprog
    have hfree : ¬ DrainHolds σ₁ pid (.outbox x.id) := by
      intro ⟨pid', q, b', _, hq, hqcall, hheld⟩
      rw [hbegins.unheld pid' q b' hq hqcall] at hheld
      exact absurd hheld List.not_mem_nil
    rcases hbatch.took.eligible (hbatch.took.grown.subset hx) hnew hfree with hin | ⟨hfull, hall⟩
    · refine Or.inl ⟨publish t x, ?_, sameEvent_publish t hnew, rfl⟩
      rw [hrows]
      exact List.mem_append_left _ ((mem_publishAll hbatch.nodup).mpr (Or.inl ⟨x, hin, rfl⟩))
    · refine Or.inr ⟨hfull, ?_⟩
      obtain ⟨added, hadded⟩ := growing_trans _ _ _ hbatch.took.grown hbatch.grow
      have hgrown : publishedUpTo x.createdAt σ₁.db ≤ publishedUpTo x.createdAt hi := by
        exact publishedUpTo_grow hadded.symm
      have hcommitted : publishedUpTo x.createdAt (view hi (publishAll t evs)) ≤
          publishedUpTo x.createdAt σ.db := by
        exact publishedUpTo_grow hrows
      have hcount : evs.countP (·.createdAt ≤ x.createdAt) = b := by
        rw [← hfull]
        refine List.countP_eq_length.mpr fun ev hev => ?_
        exact decide_eq_true (hall ev hev)
      have hbatch := publishedUpTo_publishAll (t := t) (τ := x.createdAt) hbatch.nodup hbatch.current
      omega

end Rows

section Halting

variable {ext : Externals} {ℓ ℓ' : Loop} {n : ℕ} {ok : State → Label backend Call → Prop}
  {l : LoopLabel}

/-- The worker has been stopped, or it has left the loop. -/
def Loop.Halted (ℓ : Loop) : Prop := ℓ.running = false ∨ ℓ.stance = .ended

theorem drain_started {σ σ' : State} {l : Label backend Call} {pid b : ℕ}
    {p : Process backend Call Reply} (hl : σ.step (program ext) l = some σ')
    (hp : σ'.procs pid = some p) (hcall : p.call = .drain b) :
    l = .start pid (.drain b) ∨ ∃ q, σ.procs pid = some q ∧ q.call = .drain b := by
  cases hq : σ.procs pid with
  | some q =>
    obtain ⟨act, hs⟩ := System.stepped_of_step hl
    exact Or.inr ⟨q, rfl, (System.call_of_stepped hs hq hp).symm.trans hcall⟩
  | none =>
    obtain ⟨act, hs⟩ := System.stepped_of_step hl
    have hpid : pid = l.pid := by
      by_contra hne
      rw [hs.procs_of_ne hne, hq] at hp
      contradiction
    subst hpid
    cases hs with
    | start pid c hnone =>
      obtain rfl := Option.some.inj ((System.procs_set_self σ pid _).symm.trans hp)
      obtain rfl : c = .drain b := hcall
      exact Or.inl rfl
    | cancel pid q hp' | call pid o q query next hp' | deferred pid o q next e hp'
    | refused pid o q e L hp' | advance pid o q prog L issued hp' | commit pid o q next hp' =>
      rw [Label.pid, hp'] at hq
      contradiction

/-- What is left to a worker that has halted: the drain that it awaits may return. -/
structure Winding (ℓ : Loop) (n : ℕ) (ℓ' : Loop) : Prop where
  halted : ℓ'.Halted
  old : ∀ pid p b, ℓ'.sys.procs pid = some p → p.call = .drain b →
    ∃ q, ℓ.sys.procs pid = some q ∧ q.call = .drain b
  last : n = 0 ∨ n = 1 ∧ ∀ pid, ℓ'.stance ≠ .draining pid

theorem Winding.step {ℓ₀ : Loop} (h : Winding ℓ₀ n ℓ) (hm : Loop.Moves ext ℓ ℓ' l) :
    Winding ℓ₀ (n + ℓ.returns l) ℓ' := by
  cases hm with
  | service l hno hs hrunning hstance =>
    refine ⟨?_, ?_, ?_⟩
    · unfold Loop.Halted
      rw [hrunning, hstance]
      exact h.halted
    · intro pid p b hp hcall
      rcases drain_started hs hp hcall with hl | ⟨q, hq, hqcall⟩
      · exact absurd hl (hno pid b)
      · exact h.old pid q b hq hqcall
    · rw [hstance]
      exact h.last
  | starts pid htesting hrunning hs hstance =>
    rcases h.halted with hstopped | hended
    · rw [hrunning] at hstopped
      contradiction
    · rw [htesting] at hended
      contradiction
  | awaits pid pid' p hdraining hp hafter hsys hrunning =>
    have hfirst : n = 0 := h.last.resolve_right fun hone => hone.2 pid hdraining
    have hle : ℓ.returns (.worker pid') ≤ 1 := by
      unfold Loop.returns
      dsimp only
      split
      · exact le_rfl
      · exact Nat.zero_le 1
    refine ⟨?_, ?_, ?_⟩
    · rcases h.halted with hstopped | hended
      · exact Or.inl (hrunning.trans hstopped)
      · rw [hdraining] at hended
        contradiction
    · rw [hsys]
      exact h.old
    · by_cases hzero : ℓ.returns (.worker pid') = 0
      · left
        omega
      · exact Or.inr ⟨by omega, afterDrain_ne_draining hafter⟩
  | rests l hsys hrunning hstance hended hreturns =>
    rw [hreturns]
    refine ⟨?_, ?_, ?_⟩
    · rcases h.halted with hstopped | hend
      · refine Or.inl (Bool.eq_false_of_not_eq_true fun htrue => ?_)
        rw [hrunning htrue] at hstopped
        contradiction
      · exact Or.inr (hended hend)
    · rw [hsys]
      exact h.old
    · refine h.last.imp_right fun hone => ⟨hone.1, ?_⟩
      rcases hstance with hsame | ⟨-, hafter⟩
      · rw [hsame]
        exact hone.2
      · exact hafter
  | cancels pid hdraining hs hrunning hstance =>
    refine ⟨Or.inr hstance, ?_, ?_⟩
    · intro pid' p b hp hcall
      rcases drain_started hs hp hcall with hl | ⟨q, hq, hqcall⟩
      · contradiction
      · exact h.old pid' q b hq hqcall
    · refine h.last.imp_right fun hone => absurd hdraining (hone.2 pid)

theorem winding_of_polled (hhalted : ℓ.Halted) (h : Polled ext ok ℓ n ℓ') : Winding ℓ n ℓ' := by
  induction h with
  | start => exact ⟨hhalted, fun pid p b hp hcall => ⟨p, hp, hcall⟩, Or.inl rfl⟩
  | step n ℓ' l ℓ'' _ _ hl ih => exact ih.step (moves_of_step hl)

end Halting

section Progress

variable {ext : Externals} {db : Database} {spent : List Uuid} {ℓ : Loop} {σ : State} {pid b : ℕ}
  {p : Process backend Call Reply}

/-- The step is one of the relay. -/
def OfRelay (σ : State) (l : Label backend Call) : Prop :=
  (∃ pid b, l = .start pid (.drain b)) ∨ ∃ p b, σ.procs l.pid = some p ∧ p.call = .drain b

/-- The drain that the worker awaits takes steps. -/
theorem polled_of_lone (hp : ℓ.sys.procs pid = some p) (hcall : p.call = .drain b)
    (h : System.Run (program ext) (System.OnlyBy System.anyOracle pid) ℓ.sys σ) :
    Polled ext OfRelay ℓ 0 { ℓ with sys := σ } := by
  have hkept : Polled ext OfRelay ℓ 0 { ℓ with sys := σ } ∧
      ∃ q, σ.procs pid = some q ∧ q.call = .drain b := by
    induction h with
    | refl => exact ⟨.start, p, hp, hcall⟩
    | @tail σ₁ σ₂ _ hstep ih =>
      obtain ⟨hpolled, q, hq, hqcall⟩ := ih
      obtain ⟨l, hl, rfl, -, -⟩ := hstep
      obtain ⟨act, hs⟩ := System.stepped_of_step hl
      have hno : startsDrain l = false := by
        cases hs with
        | start pid c hnone =>
          rw [Label.pid, hnone] at hq
          contradiction
        | _ => rfl
      obtain ⟨q', hq', -⟩ := System.trace_of_stepped hs hq
      refine ⟨?_, q', hq', (System.call_of_stepped hs hq hq').trans hqcall⟩
      refine .step 0 _ (.service l) _ hpolled ?_ ?_
      · intro l' hl'
        cases hl'
        exact Or.inr ⟨q, b, hq, hqcall⟩
      · simp [Loop.step, hno, hl]
  exact hkept.1

/-- A worker that has not halted can drain once more. -/
theorem exists_round (hkept : ℓ.Kept)
    (hreached : System.Run (program ext) anyStep (System.initial db spent) ℓ.sys)
    (hrunning : ℓ.running = true) (hstance : ℓ.stance = .testing) :
    ∃ ℓ' n, Polled ext OfRelay ℓ 1 ℓ' ∧ ℓ'.running = true ∧
      ℓ'.stance = (if n = 0 then .sleeping else .testing) ∧
      n = min batchSize (unpublished ℓ.sys.db).length ∧
      (unpublished ℓ'.sys.db).length + n = (unpublished ℓ.sys.db).length := by
  obtain ⟨pid, hnone⟩ := System.exists_unstarted hreached
  have hfresh : ℓ.sys.procs pid = none := hnone pid le_rfl
  have hunheld : Unheld ℓ.sys := by
    refine unheld_of_finished (running_of_run hreached) fun pid p b hp hcall => ?_
    refine hkept.ended ?_ hp hcall
    rw [hstance]
    exact fun _ h => by contradiction
  obtain ⟨σ₁, σ, p, n, hl, hrun, hp, hcall, hprog⟩ := exists_return hreached hfresh batchSize
  obtain ⟨-, q, hq, hqcall⟩ := started_of_step hl
  obtain ⟨hquiet, -⟩ := quietly_of_lone hq hqcall hrun
  have hwhole : System.Run (program ext) (Quietly pid) ℓ.sys σ := by
    refine .head ⟨_, hl, Or.inl rfl, ?_⟩ (hquiet.mono fun _ _ hok => hok.1)
    intro r next hr _
    rw [Label.pid, hfresh] at hr
    contradiction
  obtain ⟨hn, hleft, -⟩ := batch_of_turn hreached hunheld hfresh hwhole hp hcall hprog
  have hstart : Polled ext OfRelay ℓ 0 { ℓ with sys := σ₁, stance := .draining pid } := by
    have hreturns : ℓ.returns (.worker pid) = 0 := by simp [Loop.returns, Loop.awaited, hstance]
    have hlabel : ∀ l', ℓ.label (.worker pid) = some l' → OfRelay ℓ.sys l' := by
      intro l' hl'
      simp only [Loop.label, hstance, hrunning, if_true, Option.some.injEq] at hl'
      exact Or.inl ⟨pid, batchSize, hl'.symm⟩
    have hstep : ℓ.step ext (.worker pid) =
        some { ℓ with sys := σ₁, stance := .draining pid } := by
      simp [Loop.step, hstance, hrunning, hl]
    have hone := Polled.once hlabel hstep
    rw [hreturns] at hone
    exact hone
  have hdrain := hstart.trans (polled_of_lone (ℓ := { ℓ with sys := σ₁, stance := .draining pid })
    hq hqcall hrun)
  refine ⟨{ ℓ with sys := σ, stance := if n = 0 then .sleeping else .testing }, n, ?_, hrunning, rfl,
    hn, hleft⟩
  have hawaited : ({ ℓ with sys := σ, stance := .draining pid } : Loop).awaited =
      some (pure (.drained n)) := by
    simp [Loop.awaited, hp, hprog]
  have hreturn : Polled ext OfRelay ℓ _
      { ℓ with sys := σ, stance := if n = 0 then .sleeping else .testing } :=
    .step _ _ (.worker 0) _ hdrain ?_ ?_
  · simpa [Loop.returns, hawaited, Prog.value?, pure] using hreturn
  · intro l' hl'
    simp [Loop.label] at hl'
  · simp [Loop.step, hawaited, pure, afterDrain]

/-- A worker that has not halted can publish what is left, and pause. -/
theorem exists_pause (hkept : ℓ.Kept)
    (hreached : System.Run (program ext) anyStep (System.initial db spent) ℓ.sys)
    (hrunning : ℓ.running = true) (hstance : ℓ.stance = .testing) :
    ∃ m ℓ', Polled ext OfRelay ℓ m ℓ' ∧ ℓ'.stance = .sleeping ∧ unpublished ℓ'.sys.db = [] := by
  induction hlen : (unpublished ℓ.sys.db).length using Nat.strong_induction_on generalizing ℓ with
  | _ len ih =>
    obtain ⟨ℓ', n, hround, hrunning', hstance', hn, hleft⟩ :=
      exists_round hkept hreached hrunning hstance
    obtain ⟨hrun, hkept'⟩ := run_of_polled hkept hround
    have hreached' := hreached.trans (System.Run.mono hrun fun _ _ _ => trivial)
    unfold batchSize at hn
    by_cases hzero : n = 0
    · rw [if_pos hzero] at hstance'
      refine ⟨1, ℓ', hround, hstance', List.length_eq_zero_iff.mp ?_⟩
      omega
    · rw [if_neg hzero] at hstance'
      obtain ⟨m, ℓ'', hrest, hpaused⟩ :=
        ih (unpublished ℓ'.sys.db).length (by omega) hkept' hreached' hrunning' hstance' rfl
      exact ⟨1 + m, ℓ'', hround.trans hrest, hpaused⟩

end Progress

section Worker

variable {ext : Externals} {db : Database} {spent : List Uuid} {ℓ : Loop} {n : ℕ}
  {ok : State → Label backend Call → Prop}

theorem reached_of_polled (h : Polled ext ok (Loop.initial db spent) n ℓ) :
    System.Run (program ext) anyStep (System.initial db spent) ℓ.sys ∧ ℓ.Kept := by
  obtain ⟨hrun, hkept⟩ := run_of_polled (Loop.kept_initial db spent) h
  exact ⟨System.Run.mono hrun fun _ _ _ => trivial, hkept⟩

/-- A run of the loop along a list of labels. -/
def Loop.exec (ext : Externals) : List LoopLabel → Loop → Option Loop
  | [], ℓ => some ℓ
  | l :: ls, ℓ => (ℓ.step ext l).bind (exec ext ls)

theorem polled_of_exec {ls : List LoopLabel} {ℓ ℓ' : Loop} (h : Loop.exec ext ls ℓ = some ℓ') :
    ∃ n, Polled ext anyStep ℓ n ℓ' := by
  induction ls generalizing ℓ with
  | nil =>
    cases h
    exact ⟨0, .start⟩
  | cons l ls ih =>
    obtain ⟨ℓ₁, hl, hrest⟩ := Option.bind_eq_some_iff.mp h
    obtain ⟨n, hpolled⟩ := ih hrest
    exact ⟨_, (Polled.once (fun _ _ => trivial) hl).trans hpolled⟩

/-- `run_loop` is the single worker of the service. It pauses after a drain that has found nothing
only when all rows are published that were there when the worker was last between two drains. Once
it has been stopped or has left the loop it starts no drain, and at most one more returns. -/
theorem worker_pauses_when_drained (h : Polled ext ok (Loop.initial db spent) n ℓ) :
    System.Run (program ext) (fun σ l => ok σ l ∧ SingleWorker σ l) (System.initial db spent) ℓ.sys ∧
    ((∀ pid, ℓ.stance ≠ .draining pid) → ∀ m ℓ' pid p, Polled ext ok ℓ m ℓ' →
      ℓ'.stance = .draining pid → ℓ'.sys.procs pid = some p → p.prog = pure (.drained 0) →
        ∀ ev ∈ ℓ.sys.db.outbox.rows, IsPublished ev ℓ'.sys.db) ∧
    (ℓ.Halted → ∀ m ℓ', Polled ext ok ℓ m ℓ' → m ≤ 1 ∧
      ∀ pid p b, ℓ'.sys.procs pid = some p → p.call = .drain b →
        ∃ q, ℓ.sys.procs pid = some q ∧ q.call = .drain b) := by
  obtain ⟨hreached, hkept⟩ := reached_of_polled h
  refine ⟨(run_of_polled (Loop.kept_initial db spent) h).1, ?_, ?_⟩
  · intro hstance m ℓ' pid p hpolled hdraining hp hprog ev hev
    obtain ⟨-, hkept'⟩ := run_of_polled hkept hpolled
    -- the row is still there when the last drain begins
    have hstands := stands_of_polled (I := fun _ σ => Persists ev σ.db) hkept hreached hstance
      ⟨ev, hev, .refl ev⟩ (fun _ => persists_steps ev)
      (fun _ σ₁ σ _ _ _ hbegins hI hrun _ _ _ => (persists_steps ev).run hbegins.reached hI hrun)
      hpolled
    cases hstands with
    | between hbetween hI => exact absurd hdraining (hbetween pid)
    | within pid' σ₁ hdraining' hbegins hI hrun =>
      cases hdraining.symm.trans hdraining'
      obtain ⟨q, hq, hcall⟩ := hkept'.own pid hdraining
      obtain rfl := Option.some.inj (hq.symm.trans hp)
      obtain ⟨x, hx, hsame⟩ := hI
      rcases publishes_or_full hbegins hrun hq hcall hprog hx with hpublished | ⟨hfull, -⟩
      · obtain ⟨y, hy, hsame', hsome⟩ := hpublished
        exact ⟨y, hy, hsame.trans hsame', hsome⟩
      · contradiction
  · intro hhalted m ℓ' hpolled
    have hwinding := winding_of_polled hhalted hpolled
    refine ⟨?_, hwinding.old⟩
    rcases hwinding.last with hzero | ⟨hone, -⟩
    · omega
    · omega

/-- The steps of a worker that publishes three rows and finds nothing in its second drain. -/
def drainedSteps : List LoopLabel :=
  [.worker 0] ++ (sampleSteps 0 10 14 (.error "unused") 99).map .service ++ [.worker 0, .worker 1] ++
    (sampleSteps 1 30 4 (.error "unused") 99).map .service

theorem worker_pauses_when_drained_sample :
    ∃ m ℓ', Polled sampleExternals anyStep (Loop.initial queuedDatabase []) m ℓ' ∧
      ℓ'.stance = .draining 1 ∧ ∀ ev ∈ queuedDatabase.outbox.rows, IsPublished ev ℓ'.sys.db := by
  obtain ⟨ℓ', hexec, hobserved⟩ := Option.map_eq_some_iff.mp (show
    (Loop.exec sampleExternals drainedSteps (Loop.initial queuedDatabase [])).map
      (fun ℓ => (ℓ.stance, (ℓ.sys.procs 1).map (·.prog.value?))) =
    some (.draining 1, some (some (.drained 0))) by decide +kernel)
  obtain ⟨hstance, hvalue⟩ := Prod.mk.inj hobserved
  obtain ⟨p, hp, hdrained⟩ := Option.map_eq_some_iff.mp hvalue
  obtain ⟨m, hpolled⟩ := polled_of_exec hexec
  refine ⟨m, ℓ', hpolled, hstance, ?_⟩
  have hstart : Polled sampleExternals anyStep (Loop.initial queuedDatabase []) 0
      (Loop.initial queuedDatabase []) := .start
  obtain ⟨-, hpauses, -⟩ := worker_pauses_when_drained hstart
  exact hpauses (fun _ h => by contradiction) m ℓ' 1 p hpolled hstance hp
    (Prog.eq_pure_of_value? hdrained)

/-- A row waits only for full batches of rows that are not younger: after any number of drains that
have returned, it is published, or that many full batches of such rows have been. From between two
drains a worker that has not halted can by itself publish all that is left, and pause. -/
theorem worker_reaches_every_event (h : Polled ext ok (Loop.initial db spent) n ℓ)
    (hstance : ∀ pid, ℓ.stance ≠ .draining pid) :
    (∀ m ℓ', Polled ext ok ℓ m ℓ' → ∀ ev ∈ ℓ.sys.db.outbox.rows, IsPublished ev ℓ'.sys.db ∨
      publishedUpTo ev.createdAt ℓ.sys.db + m * batchSize ≤
        publishedUpTo ev.createdAt ℓ'.sys.db) ∧
    (ℓ.Halted ∨ ∃ m ℓ', Polled ext OfRelay ℓ m ℓ' ∧ ℓ'.stance = .sleeping ∧
      unpublished ℓ'.sys.db = []) := by
  obtain ⟨hreached, hkept⟩ := reached_of_polled h
  constructor
  · intro m ℓ' hpolled ev hev
    let I : ℕ → State → Prop := fun m σ => Persists ev σ.db ∧ (IsPublished ev σ.db ∨
      publishedUpTo ev.createdAt ℓ.sys.db + m * batchSize ≤ publishedUpTo ev.createdAt σ.db)
    have hsteps : ∀ m, KeptBySteps ext db spent (I m) := by
      intro m σ l σ' hσ ⟨hpersists, hI⟩ hl
      refine ⟨persists_steps ev σ l σ' hσ hpersists hl, ?_⟩
      rcases hI with hpublished | hcount
      · exact Or.inl (isPublished_steps ev σ l σ' hσ hpublished hl)
      · exact Or.inr (publishedUpTo_steps ev _ σ l σ' hσ hcount hl)
    have hreturn : ∀ m σ₁ σ pid p k, Begins ext db spent pid σ₁ → I m σ₁ →
        System.Run (program ext) (SoleDrain pid) σ₁ σ → σ.procs pid = some p →
          p.call = .drain batchSize → p.prog = pure (.drained k) → I (m + 1) σ := by
      intro m σ₁ σ pid p k hbegins hI hrun hp hcall hprog
      obtain ⟨hpersists, hlast⟩ := (hsteps m).run hbegins.reached hI hrun
      refine ⟨hpersists, ?_⟩
      obtain ⟨x, hx, hsame⟩ := hI.1
      have hcreated : x.createdAt = ev.createdAt := by rw [hsame.content]
      rcases hI.2 with hpublished | hcount
      · exact Or.inl ((isPublished_steps ev).run hbegins.reached hpublished hrun)
      · rcases publishes_or_full hbegins hrun hp hcall hprog hx with ⟨y, hy, hsame', hsome⟩ | ⟨-, hmore⟩
        · exact Or.inl ⟨y, hy, hsame.trans hsame', hsome⟩
        · rw [hcreated] at hmore
          refine Or.inr ?_
          rw [Nat.succ_mul]
          omega
    have hI : I 0 ℓ.sys := ⟨⟨ev, hev, .refl ev⟩, Or.inr (by omega)⟩
    cases stands_of_polled hkept hreached hstance hI hsteps hreturn hpolled with
    | between _ hI => exact hI.2
    | within pid σ₁ _ hbegins hI hrun => exact ((hsteps m).run hbegins.reached hI hrun).2
  · by_cases hhalted : ℓ.Halted
    · exact Or.inl hhalted
    · have hrunning : ℓ.running = true := by
        by_contra hstopped
        exact hhalted (Or.inl (Bool.eq_false_of_not_eq_true hstopped))
      right
      cases hst : ℓ.stance with
      | testing =>
        exact exists_pause hkept hreached hrunning hst
      | sleeping =>
        have hwake : ℓ.step ext (.worker 0) = some { ℓ with stance := .testing } := by
          simp [Loop.step, hst]
        have hreturns : ℓ.returns (.worker 0) = 0 := by simp [Loop.returns, Loop.awaited, hst]
        have hwoken : Polled ext OfRelay ℓ _ _ :=
          .once (fun l' hl' => by simp [Loop.label, hst] at hl') hwake
        obtain ⟨m, ℓ', hrest, hpaused⟩ := exists_pause
          (hkept.step (moves_of_step hwake)) hreached hrunning rfl
        exact ⟨_, ℓ', hwoken.trans hrest, hpaused⟩
      | draining pid => exact absurd hst (hstance pid)
      | ended => exact absurd (Or.inr hst) hhalted

theorem worker_reaches_every_event_sample :
    (∀ m ℓ', Polled sampleExternals anyStep (Loop.initial queuedDatabase []) m ℓ' →
      ∀ ev ∈ queuedDatabase.outbox.rows, IsPublished ev ℓ'.sys.db ∨
        0 + m * batchSize ≤ publishedUpTo ev.createdAt ℓ'.sys.db) ∧
    ((Loop.initial queuedDatabase []).Halted ∨ ∃ m ℓ',
      Polled sampleExternals OfRelay (Loop.initial queuedDatabase []) m ℓ' ∧ ℓ'.stance = .sleeping ∧
        unpublished ℓ'.sys.db = []) := by
  have hstart : Polled sampleExternals anyStep (Loop.initial queuedDatabase []) 0
      (Loop.initial queuedDatabase []) := .start
  exact worker_reaches_every_event hstart fun _ h => by contradiction

end Worker

end ApexPayments.Service
