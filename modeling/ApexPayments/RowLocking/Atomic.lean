import ApexPayments.RowLocking.System

/-!
Transactions executed in one piece. `Runs` says how a stretch of a program can
end when all its row locks and inserts are taken against one committed store,
while its plain reads may have seen any store committed since the stretch
began. `Atomic.Step` is the system built from such transactions; the statement
level refines it (see `Refinement`).
-/
namespace RowLocking

variable {B : Backend} {C α β : Type}

/-- The stores and identifiers around one transaction. `older s t` orders the
committed stores in time; plain reads see a store between `lo` and `hi`. The rows in
`skips` may be held by others when a lock is tried. -/
structure Frame (B : Backend) where
  older : B.Store → B.Store → Prop
  lo : B.Store
  hi : B.Store
  spent : List B.Ident
  skips : B.Key → Prop

namespace Frame

/-- Nothing else runs: every read sees the one committed store. -/
def alone (s : B.Store) (spent : List B.Ident) : Frame B := ⟨Eq, s, s, spent, fun _ => False⟩

def Sees (F : Frame B) (s : B.Store) : Prop := F.older F.lo s ∧ F.older s F.hi

/-- A plain read sees a store of the window, no older than those read before it. -/
def Reads (F : Frame B) (L : Session B) (s : B.Store) : Prop :=
  F.Sees s ∧ ∀ t ∈ L.snapshots, F.older t s

/-- The store executes the statement after those already flushed. -/
def Accepts (F : Frame B) (flushed : List (Write B)) (w : Write B) : Prop :=
  (∀ r, w = .insert r → B.get (view F.hi flushed) (B.keyOf r) = none) ∧
  ∃ s, F.Sees s ∧ B.violation (view s flushed) w.row = none

def Flushes (F : Frame B) : List (Write B) → List (Write B) → Prop
  | _, [] => True
  | flushed, w :: ws => F.Accepts flushed w ∧ F.Flushes (flushed ++ [w]) ws

def FlushFails (F : Frame B) (e : B.Error) : List (Write B) → List (Write B) → Prop
  | _, [] => False
  | flushed, w :: ws =>
      w.rejected (view F.hi flushed) = some e ∨
        F.Accepts flushed w ∧ F.FlushFails e (flushed ++ [w]) ws

end Frame

inductive Stop (B : Backend) (α : Type) where
  | value (a : α) (L : Session B)
  | raised (e : B.Error) (L : Session B)
  | committed (next : Prog B α) (L : Session B)
  | calling (q : B.Query) (next : B.Answer q → Prog B α) (L : Session B)

namespace Prog

/-- How the program can stop: with a value, with an error, at its next commit or
at a call to an outside service. -/
def Runs (F : Frame B) : Prog B α → Session B → Stop B α → Prop
  | .pure a, L, o => o = .value a L
  | .raise e, L, o => o = .raised e L
  | .read next, L, o => ∃ s, F.Reads L s ∧ Runs F (next (view s L.flushed)) (L.see s) o
  | .lock k next, L, o =>
      (∃ s, F.Reads L s ∧ B.get (view s L.flushed) k = none ∧ Runs F (next none) (L.see s) o) ∨
      ∃ r, B.get (view F.hi L.flushed) k = some r ∧ Runs F (next (some r)) (L.hold k) o
  | .tryLock k next, L, o =>
      (∃ s, F.Reads L s ∧ B.get (view s L.flushed) k = none ∧ Runs F (next none) (L.see s) o) ∨
      (∃ r, B.get (view F.hi L.flushed) k = some r ∧ Runs F (next (some r)) (L.hold k) o) ∨
      F.skips k ∧ Runs F (next none) L o
  | .stage w next, L, o => Runs F next (L.stage w) o
  | .flush next, L, o =>
      F.Flushes L.flushed L.pending ∧ Runs F next L.flushAll o ∨
      ∃ e L', F.FlushFails e L.flushed L.pending ∧ o = .raised e L'
  | .draw next, L, o => ∃ i, i ∉ F.spent ∧ i ∉ L.drawn ∧ Runs F (next i) (L.draw i) o
  | .ask _ next, L, o => ∃ a, Runs F (next a) L o
  | .call q next, L, o => o = .calling q next L
  | .commit next, L, o =>
      L.pending = [] ∧
        match B.deferred (view F.hi L.flushed) (L.flushed.filterMap Write.inserted) with
        | some e => o = .raised e L
        | none => o = .committed next L

end Prog

namespace Stop

/-- What is left to do when the program is followed by `f`. -/
def andThen (F : Frame B) (f : α → Prog B β) : Stop B α → Stop B β → Prop
  | value a L, o => (f a).Runs F L o
  | raised e L, o => o = .raised e L
  | committed next L, o => o = .committed (next >>= f) L
  | calling q next L, o => o = .calling q (fun a => next a >>= f) L

end Stop

namespace Prog

variable (F : Frame B)

/-- Runs of a sequence are runs of its first part, then of the rest. -/
theorem runs_bind (p : Prog B α) (f : α → Prog B β) (L : Session B) (o : Stop B β) :
    (p >>= f).Runs F L o ↔ ∃ o', p.Runs F L o' ∧ o'.andThen F f o := by
  change (p.bind f).Runs F L o ↔ _
  induction p generalizing L with
  | pure a => simp [bind, Runs, Stop.andThen]
  | raise e => simp [bind, Runs, Stop.andThen]
  | read next ih =>
    simp only [bind, Runs, ih]
    constructor
    · rintro ⟨s, hs, o', h, h'⟩
      exact ⟨o', ⟨s, hs, h⟩, h'⟩
    · rintro ⟨o', ⟨s, hs, h⟩, h'⟩
      exact ⟨s, hs, o', h, h'⟩
  | lock k next ih =>
    simp only [bind, Runs, ih]
    constructor
    · rintro (⟨s, hs, hn, o', h, h'⟩ | ⟨r, hr, o', h, h'⟩)
      · exact ⟨o', Or.inl ⟨s, hs, hn, h⟩, h'⟩
      · exact ⟨o', Or.inr ⟨r, hr, h⟩, h'⟩
    · rintro ⟨o', ⟨s, hs, hn, h⟩ | ⟨r, hr, h⟩, h'⟩
      · exact Or.inl ⟨s, hs, hn, o', h, h'⟩
      · exact Or.inr ⟨r, hr, o', h, h'⟩
  | tryLock k next ih =>
    simp only [bind, Runs, ih]
    constructor
    · rintro (⟨s, hs, hn, o', h, h'⟩ | ⟨r, hr, o', h, h'⟩ | ⟨hk, o', h, h'⟩)
      · exact ⟨o', Or.inl ⟨s, hs, hn, h⟩, h'⟩
      · exact ⟨o', Or.inr (Or.inl ⟨r, hr, h⟩), h'⟩
      · exact ⟨o', Or.inr (Or.inr ⟨hk, h⟩), h'⟩
    · rintro ⟨o', ⟨s, hs, hn, h⟩ | ⟨r, hr, h⟩ | ⟨hk, h⟩, h'⟩
      · exact Or.inl ⟨s, hs, hn, o', h, h'⟩
      · exact Or.inr (Or.inl ⟨r, hr, o', h, h'⟩)
      · exact Or.inr (Or.inr ⟨hk, o', h, h'⟩)
  | stage w next ih => simp only [bind, Runs, ih]
  | flush next ih =>
    simp only [bind, Runs, ih]
    constructor
    · rintro (⟨hf, o', h, h'⟩ | ⟨e, L', hf, rfl⟩)
      · exact ⟨o', Or.inl ⟨hf, h⟩, h'⟩
      · exact ⟨.raised e L', Or.inr ⟨e, L', hf, rfl⟩, rfl⟩
    · rintro ⟨o', ⟨hf, h⟩ | ⟨e, L', hf, rfl⟩, h'⟩
      · exact Or.inl ⟨hf, o', h, h'⟩
      · exact Or.inr ⟨e, L', hf, h'⟩
  | draw next ih =>
    simp only [bind, Runs, ih]
    constructor
    · rintro ⟨i, hi, hd, o', h, h'⟩
      exact ⟨o', ⟨i, hi, hd, h⟩, h'⟩
    · rintro ⟨o', ⟨i, hi, hd, h⟩, h'⟩
      exact ⟨i, hi, hd, o', h, h'⟩
  | ask q next ih =>
    simp only [bind, Runs, ih]
    constructor
    · rintro ⟨a, o', h, h'⟩
      exact ⟨o', ⟨a, h⟩, h'⟩
    · rintro ⟨o', ⟨a, h⟩, h'⟩
      exact ⟨a, o', h, h'⟩
  | call q next ih =>
    simp only [bind, Runs]
    constructor
    · rintro rfl
      exact ⟨.calling q next L, rfl, rfl⟩
    · rintro ⟨o', rfl, h'⟩
      exact h'
  | commit next ih =>
    simp only [bind, Runs]
    cases B.deferred (view F.hi L.flushed) (L.flushed.filterMap Write.inserted) with
    | none =>
      constructor
      · rintro ⟨hp, rfl⟩
        exact ⟨.committed next L, ⟨hp, rfl⟩, rfl⟩
      · rintro ⟨o', ⟨hp, rfl⟩, h'⟩
        exact ⟨hp, h'⟩
    | some e =>
      constructor
      · rintro ⟨hp, rfl⟩
        exact ⟨.raised e L, ⟨hp, rfl⟩, rfl⟩
      · rintro ⟨o', ⟨hp, rfl⟩, h'⟩
        exact ⟨hp, h'⟩

section Statements

variable (L : Session B) (o : Stop B β)

theorem runs_pure_bind (a : α) (f : α → Prog B β) :
    ((Pure.pure a : Prog B α) >>= f).Runs F L o ↔ (f a).Runs F L o := Iff.rfl

theorem runs_raise_bind (e : B.Error) (f : α → Prog B β) :
    ((Prog.raise e : Prog B α) >>= f).Runs F L o ↔ o = .raised e L := Iff.rfl

theorem runs_pure (b : β) : (Pure.pure b : Prog B β).Runs F L o ↔ o = .value b L := Iff.rfl

theorem runs_raise (e : B.Error) : (Prog.raise e : Prog B β).Runs F L o ↔ o = .raised e L :=
  Iff.rfl

theorem runs_select (g : B.Store → α) (f : α → Prog B β) :
    (select g >>= f).Runs F L o ↔
      ∃ s, F.Reads L s ∧ (f (g (view s L.flushed))).Runs F (L.see s) o := Iff.rfl

theorem runs_lockRow (k : B.Key) (f : Option B.Row → Prog B β) :
    (lockRow k >>= f).Runs F L o ↔
      (∃ s, F.Reads L s ∧ B.get (view s L.flushed) k = none ∧ (f none).Runs F (L.see s) o) ∨
      ∃ r, B.get (view F.hi L.flushed) k = some r ∧ (f (some r)).Runs F (L.hold k) o := Iff.rfl

theorem runs_tryLockRow (k : B.Key) (f : Option B.Row → Prog B β) :
    (tryLockRow k >>= f).Runs F L o ↔
      (∃ s, F.Reads L s ∧ B.get (view s L.flushed) k = none ∧ (f none).Runs F (L.see s) o) ∨
      (∃ r, B.get (view F.hi L.flushed) k = some r ∧ (f (some r)).Runs F (L.hold k) o) ∨
      F.skips k ∧ (f none).Runs F L o := Iff.rfl

theorem runs_stageRow (w : Write B) (f : Unit → Prog B β) :
    (stageRow w >>= f).Runs F L o ↔ (f ()).Runs F (L.stage w) o := Iff.rfl

theorem runs_flushAll (f : Unit → Prog B β) :
    (flushAll >>= f).Runs F L o ↔
      F.Flushes L.flushed L.pending ∧ (f ()).Runs F L.flushAll o ∨
      ∃ e L', F.FlushFails e L.flushed L.pending ∧ o = .raised e L' := Iff.rfl

theorem runs_drawIdent (f : B.Ident → Prog B β) :
    (drawIdent >>= f).Runs F L o ↔
      ∃ i, i ∉ F.spent ∧ i ∉ L.drawn ∧ (f i).Runs F (L.draw i) o := Iff.rfl

theorem runs_askFor (q : B.Query) (f : B.Answer q → Prog B β) :
    (askFor q >>= f).Runs F L o ↔ ∃ a, (f a).Runs F L o := Iff.rfl

theorem runs_callOut (q : B.Query) (f : B.Answer q → Prog B β) :
    (callOut q >>= f).Runs F L o ↔ o = .calling q f L := Iff.rfl

theorem runs_commitAll (f : Unit → Prog B β) :
    (commitAll >>= f).Runs F L o ↔
      (F.Flushes L.flushed L.pending ∧
        match B.deferred (view F.hi L.flushAll.flushed)
            (L.flushAll.flushed.filterMap Write.inserted) with
        | some e => o = .raised e L.flushAll
        | none => o = .committed (f ()) L.flushAll) ∨
      ∃ e L', F.FlushFails e L.flushed L.pending ∧ o = .raised e L' := by
  change Runs F (Prog.flush (.commit (f ()))) L o ↔ _
  simp [Runs, Session.flushAll]

end Statements

end Prog

/-- The committed store and, for every process, what it did at its boundaries. -/
structure Atomic (B : Backend) (C α : Type) where
  db : B.Store
  spent : List B.Ident
  heads : ℕ → Option (Header B C α)

namespace Atomic

def put (a : Atomic B C α) (pid : ℕ) (h : Header B C α) : Atomic B C α :=
  { a with heads := Function.update a.heads pid (some h) }

theorem heads_put {a : Atomic B C α} {pid pid' : ℕ} {h h' : Header B C α}
    (hp : (a.put pid h).heads pid' = some h') :
    pid' = pid ∧ h' = h ∨ pid' ≠ pid ∧ a.heads pid' = some h' := by
  by_cases hne : pid' = pid
  · subst hne
    simp only [put, Function.update_self, Option.some.injEq] at hp
    exact Or.inl ⟨rfl, hp.symm⟩
  · simp only [put, Function.update_of_ne hne] at hp
    exact Or.inr ⟨hne, hp⟩

def frame (older : B.Store → B.Store → Prop) (skips : B.Key → Prop) (a : Atomic B C α)
    (h : Header B C α) : Frame B :=
  ⟨older, h.since, a.db, a.spent, skips⟩

/-- What a process does from one of its boundaries to the next. -/
inductive Act (B : Backend) (C : Type) where
  | start (pid : ℕ) (c : C)
  | call (pid : ℕ) (q : B.Query) (ans : B.Answer q)
  | commit (pid : ℕ) (L : Session B)
  | fail (pid : ℕ) (e : B.Error)

/-- Whole transactions, one after the other. -/
inductive Step (program : C → Prog B α) (older : B.Store → B.Store → Prop)
    (skips : B.Key → Prop) :
    Atomic B C α → Act B C → Atomic B C α → Prop
  | start (a : Atomic B C α) (pid : ℕ) (c : C) (hp : a.heads pid = none) :
      Step program older skips a (.start pid c) (a.put pid ⟨c, a.db, program c, []⟩)
  | call (a : Atomic B C α) (pid : ℕ) (h : Header B C α) (q : B.Query)
      (next : B.Answer q → Prog B α) (ans : B.Answer q) (L : Session B)
      (hp : a.heads pid = some h) (ho : older h.since a.db)
      (hr : h.base.Runs (a.frame older skips h) (.fresh B) (.calling q next L)) :
      Step program older skips a (.call pid q ans)
        (a.put pid (h.resume a.db (next ans) [.answered q ans]))
  | commit (a : Atomic B C α) (pid : ℕ) (h : Header B C α) (next : Prog B α) (L : Session B)
      (hp : a.heads pid = some h) (ho : older h.since a.db)
      (hr : h.base.Runs (a.frame older skips h) (.fresh B) (.committed next L)) :
      Step program older skips a (.commit pid L)
        { a.put pid (h.resume (view a.db L.flushed) next [.committed L.flushed]) with
          db := view a.db L.flushed
          spent := L.drawn ++ a.spent }
  | fail (a : Atomic B C α) (pid : ℕ) (h : Header B C α) (e : B.Error)
      (hp : a.heads pid = some h) (ho : older h.since a.db)
      (hr : e = B.cancelled ∨
        ∃ L, h.base.Runs (a.frame older skips h) (.fresh B) (.raised e L))
      (hv : ∀ v, h.base ≠ .pure v) (he : ∀ e', h.base ≠ .raise e') :
      Step program older skips a (.fail pid e) (a.put pid (h.resume a.db (.raise e) []))

/-- Runs of whole transactions in which every act is allowed. -/
def Reach (program : C → Prog B α) (allowed : Atomic B C α → Act B C → Prop)
    (older : B.Store → B.Store → Prop) (skips : B.Key → Prop) :
    Atomic B C α → Atomic B C α → Prop :=
  Relation.ReflTransGen fun a a' => ∃ act, Step program older skips a act a' ∧ allowed a act

end Atomic

end RowLocking
