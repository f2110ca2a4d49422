import ApexPayments.RowLocking.Program
import Mathlib.Logic.Relation

/-!
Concurrent processes under READ COMMITTED. Every process runs one program, one
statement at a time, in any interleaving: a plain read sees the latest committed
rows under the transaction's own statements, a row lock waits for its holder,
a lock that may skip passes over a row that is held, an insert waits for an
uncommitted row of the same key and fails once that row is committed, and a raised
error rolls the open transaction back.
-/
namespace RowLocking

variable {B : Backend} {C α : Type}

inductive Event (B : Backend) where
  | committed (ws : List (Write B))
  | answered (q : B.Query) (a : B.Answer q)

/-- What a process has left to do since its last boundary, and how it got there. -/
structure Header (B : Backend) (C α : Type) where
  call : C
  since : B.Store
  base : Prog B α
  trace : List (Event B)

structure Process (B : Backend) (C α : Type) extends Header B C α where
  prog : Prog B α
  session : Session B

structure System (B : Backend) (C α : Type) where
  db : B.Store
  spent : List B.Ident
  issued : List B.Ident
  locks : List (B.Key × ℕ)
  procs : ℕ → Option (Process B C α)

/-- What the surroundings supply to one step. -/
structure Oracle (B : Backend) where
  ident : B.Ident
  answer : (q : B.Query) → B.Answer q

inductive Label (B : Backend) (C : Type) where
  | start (pid : ℕ) (c : C)
  | run (pid : ℕ) (o : Oracle B)
  | cancel (pid : ℕ)

/-- The process that takes the step. -/
def Label.pid : Label B C → ℕ
  | start pid _ => pid
  | run pid _ => pid
  | cancel pid => pid

/-- The step cancels a statement. -/
def Label.isCancel : Label B C → Prop
  | cancel _ => True
  | _ => False

namespace Header

/-- Start the next stretch of the program at a boundary. -/
def resume (h : Header B C α) (s : B.Store) (next : Prog B α) (es : List (Event B)) :
    Header B C α :=
  { h with since := s, base := next, trace := h.trace ++ es }

end Header

namespace Process

def atBoundary (h : Header B C α) : Process B C α :=
  { h with prog := h.base, session := Session.fresh B }

def Raised (p : Process B C α) : Prop := ∃ e, p.prog = .raise e

def Finished (p : Process B C α) : Prop := (∃ a, p.prog = .pure a) ∨ p.Raised

end Process

/-- One statement inside a transaction. `none` means that it has to wait. -/
def localStep (s : B.Store) (free : B.Key → Bool) (issued : List B.Ident) (o : Oracle B) :
    Prog B α → Session B → Option (Prog B α × Session B)
  | .read next, L => some (next (view s L.flushed), L.see s)
  | .lock k next, L =>
      match B.get (view s L.flushed) k with
      | none => some (next none, L.see s)
      | some r => if free k then some (next (some r), L.hold k) else none
  | .tryLock k next, L =>
      match B.get (view s L.flushed) k with
      | none => some (next none, L.see s)
      | some r => if free k then some (next (some r), L.hold k) else some (next none, L)
  | .stage w next, L => some (next, L.stage w)
  | .flush next, L =>
      match L.pending with
      | [] => some (next, L)
      | w :: ws =>
          if free w.key then
            match w.rejected (view s L.flushed) with
            | some e => some (.raise e, L)
            | none => some (.flush next, L.execute w ws)
          else none
  | .draw next, L => if o.ident ∈ issued then none else some (next o.ident, L.draw o.ident)
  | .ask q next, L => some (next (o.answer q), L)
  | _, _ => none

namespace System

def free (σ : System B C α) (pid : ℕ) (k : B.Key) : Bool :=
  σ.locks.all fun e => e.1 ≠ k ∨ e.2 = pid

/-- Give a process its new state; its locks become exactly the rows it holds. -/
def set (σ : System B C α) (pid : ℕ) (p : Process B C α) : System B C α :=
  { σ with
    locks := p.session.held.map (·, pid) ++ σ.locks.filter (·.2 ≠ pid)
    procs := Function.update σ.procs pid (some p) }

/-- Roll the open transaction back and end the process with `e`. -/
def abort (σ : System B C α) (pid : ℕ) (p : Process B C α) (e : B.Error) : System B C α :=
  σ.set pid (.atBoundary (p.toHeader.resume σ.db (.raise e) []))

def commit (σ : System B C α) (pid : ℕ) (p : Process B C α) (next : Prog B α) :
    System B C α :=
  let db := view σ.db p.session.flushed
  { σ.set pid (.atBoundary (p.toHeader.resume db next [.committed p.session.flushed])) with
    db := db
    spent := p.session.drawn ++ σ.spent }

def stepProcess (o : Oracle B) (σ : System B C α) (pid : ℕ) (p : Process B C α) :
    Option (System B C α) :=
  match p.prog with
  | .pure _ => none
  | .raise _ => none
  | .call q next =>
      if p.session.flushed.isEmpty ∧ p.session.pending.isEmpty ∧ p.session.held.isEmpty ∧
          p.session.drawn.isEmpty then
        some (σ.set pid (.atBoundary
          (p.toHeader.resume σ.db (next (o.answer q)) [.answered q (o.answer q)])))
      else none
  | .commit next =>
      if p.session.pending.isEmpty then
        match B.deferred (view σ.db p.session.flushed)
            (p.session.flushed.filterMap Write.inserted) with
        | some e => some (σ.abort pid p e)
        | none => some (σ.commit pid p next)
      else none
  | prog =>
      match localStep σ.db (σ.free pid) σ.issued o prog p.session with
      | none => none
      | some (.raise e, _) => some (σ.abort pid p e)
      | some (prog', L) =>
          some { σ.set pid { p with prog := prog', session := L } with
            issued := match prog with
              | .draw _ => o.ident :: σ.issued
              | _ => σ.issued }

def step (program : C → Prog B α) (σ : System B C α) : Label B C → Option (System B C α)
  | .start pid c =>
      match σ.procs pid with
      | some _ => none
      | none => some (σ.set pid (.atBoundary ⟨c, σ.db, program c, []⟩))
  | .run pid o =>
      match σ.procs pid with
      | some p => σ.stepProcess o pid p
      | none => none
  | .cancel pid =>
      match σ.procs pid with
      | some p =>
          match p.prog with
          | .pure _ => none
          | .raise _ => none
          | _ => some (σ.abort pid p B.cancelled)
      | none => none

/-- Runs whose every step meets a condition on the state before it and its label. -/
def Run (program : C → Prog B α) (ok : System B C α → Label B C → Prop) :
    System B C α → System B C α → Prop :=
  Relation.ReflTransGen fun σ σ' => ∃ l, σ.step program l = some σ' ∧ ok σ l

/-- The run along a list of labels, if every step of it is possible. -/
def exec (program : C → Prog B α) : List (Label B C) → System B C α → Option (System B C α)
  | [], σ => some σ
  | l :: ls, σ => (σ.step program l).bind (exec program ls)

theorem run_of_exec {program : C → Prog B α} {ok : System B C α → Label B C → Prop}
    {ls : List (Label B C)} {σ σ' : System B C α} (h : exec program ls σ = some σ')
    (hok : ∀ l ∈ ls, ∀ σ, ok σ l) : Run program ok σ σ' := by
  induction ls generalizing σ with
  | nil =>
    cases h
    exact .refl
  | cons l ls ih =>
    obtain ⟨σ₁, hstep, hrest⟩ := Option.bind_eq_some_iff.mp h
    exact .head ⟨l, hstep, hok l (List.mem_cons_self ..) σ⟩
      (ih hrest fun l' hl' => hok l' (List.mem_cons_of_mem _ hl'))

/-- A run with what is observed at its end. -/
theorem exists_run_of_exec {program : C → Prog B α} {ok : System B C α → Label B C → Prop}
    (ls : List (Label B C)) {σ : System B C α} {β : Type} {observe : System B C α → β} {b : β}
    (h : (exec program ls σ).map observe = some b) (hok : ∀ l ∈ ls, ∀ σ, ok σ l) :
    ∃ σ', Run program ok σ σ' ∧ observe σ' = b := by
  obtain ⟨σ', hexec, hb⟩ := Option.map_eq_some_iff.mp h
  exact ⟨σ', run_of_exec hexec hok, hb⟩

/-- The run along a list of labels, if every step of it is possible and passes a check. -/
def execWith (program : C → Prog B α) (check : System B C α → Label B C → Bool) :
    List (Label B C) → System B C α → Option (System B C α)
  | [], σ => some σ
  | l :: ls, σ =>
      if check σ l then (σ.step program l).bind (execWith program check ls) else none

theorem run_of_execWith {program : C → Prog B α} {check : System B C α → Label B C → Bool}
    {ok : System B C α → Label B C → Prop} (hok : ∀ σ l, check σ l = true → ok σ l)
    {ls : List (Label B C)} {σ σ' : System B C α} (h : execWith program check ls σ = some σ') :
    Run program ok σ σ' := by
  induction ls generalizing σ with
  | nil =>
    cases h
    exact .refl
  | cons l ls ih =>
    by_cases hcheck : check σ l = true
    · rw [execWith, if_pos hcheck] at h
      obtain ⟨σ₁, hstep, hrest⟩ := Option.bind_eq_some_iff.mp h
      exact .head ⟨l, hstep, hok σ l hcheck⟩ (ih hrest)
    · rw [execWith, if_neg hcheck] at h
      contradiction

/-- A system in which no process has started. -/
def initial (db : B.Store) (spent : List B.Ident) : System B C α :=
  ⟨db, spent, spent, [], fun _ => none⟩

end System

end RowLocking
