import Mathlib.Logic.Function.Basic
import Mathlib.Data.List.Basic

/-!
Programs that use a relational store through a unit-of-work session. A program
is a tree of statements: plain reads, row locks, staged rows, flushes and
commits, together with the values the surroundings supply (fresh identifiers,
clock readings, answers of outside services). Nothing here is about one schema.
-/
namespace RowLocking

/-- What a store with row locks, constraints and deferred triggers offers. -/
structure Backend where
  Store : Type
  Key : Type
  Row : Type
  Ident : Type
  Query : Type
  Answer : Query → Type
  Error : Type
  [decKey : DecidableEq Key]
  [decIdent : DecidableEq Ident]
  keyOf : Row → Key
  get : Store → Key → Option Row
  put : Store → Row → Store
  get_put_self : ∀ s r, get (put s r) (keyOf r) = some r
  get_put_of_ne : ∀ s r k, k ≠ keyOf r → get (put s r) k = get s k
  /-- The first row constraint that writing the row would break. -/
  violation : Store → Row → Option Error
  /-- The first deferred constraint that the inserted rows break at commit. -/
  deferred : Store → List Row → Option Error
  duplicate : Row → Error
  cancelled : Error

attribute [instance] Backend.decKey Backend.decIdent

inductive Write (B : Backend) where
  | insert (r : B.Row)
  | update (r : B.Row)

namespace Write

variable {B : Backend}

def row : Write B → B.Row
  | insert r => r
  | update r => r

def key (w : Write B) : B.Key := B.keyOf w.row

def inserted : Write B → Option B.Row
  | insert r => some r
  | update _ => none

/-- The error with which the store refuses the statement, in a given view. -/
def rejected (s : B.Store) : Write B → Option B.Error
  | insert r => if (B.get s (B.keyOf r)).isSome then some (B.duplicate r) else B.violation s r
  | update r => B.violation s r

end Write

/-- Statements already executed, rows still staged, rows locked and identifiers
drawn by the open transaction, and the committed stores its plain reads saw. -/
structure Session (B : Backend) where
  flushed : List (Write B)
  pending : List (Write B)
  held : List B.Key
  drawn : List B.Ident
  snapshots : List B.Store

/-- The store as the transaction sees it: committed rows under its own statements. -/
def view {B : Backend} (s : B.Store) (ws : List (Write B)) : B.Store :=
  ws.foldl (fun s w => B.put s w.row) s

/-- Locking a row that is already held is free. -/
def addHeld {B : Backend} (ks : List B.Key) (k : B.Key) : List B.Key :=
  if k ∈ ks then ks else k :: ks

namespace Session

variable {B : Backend}

def fresh (B : Backend) : Session B := ⟨[], [], [], [], []⟩

def see (L : Session B) (s : B.Store) : Session B := { L with snapshots := s :: L.snapshots }

def hold (L : Session B) (k : B.Key) : Session B := { L with held := addHeld L.held k }

def stage (L : Session B) (w : Write B) : Session B := { L with pending := L.pending ++ [w] }

def draw (L : Session B) (i : B.Ident) : Session B := { L with drawn := i :: L.drawn }

/-- Execute the staged statement `w`, with `ws` still to come. -/
def execute (L : Session B) (w : Write B) (ws : List (Write B)) : Session B :=
  { L.hold w.key with flushed := L.flushed ++ [w], pending := ws }

def flushAll (L : Session B) : Session B :=
  { L with
    flushed := L.flushed ++ L.pending
    pending := []
    held := L.pending.foldl (fun ks w => addHeld ks w.key) L.held }

end Session

inductive Prog (B : Backend) (α : Type) where
  | pure (a : α)
  | raise (e : B.Error)
  | read (next : B.Store → Prog B α)
  | lock (k : B.Key) (next : Option B.Row → Prog B α)
  | tryLock (k : B.Key) (next : Option B.Row → Prog B α)
  | stage (w : Write B) (next : Prog B α)
  | flush (next : Prog B α)
  | draw (next : B.Ident → Prog B α)
  | ask (q : B.Query) (next : B.Answer q → Prog B α)
  | call (q : B.Query) (next : B.Answer q → Prog B α)
  | commit (next : Prog B α)

namespace Prog

variable {B : Backend} {α β γ : Type}

def bind : Prog B α → (α → Prog B β) → Prog B β
  | .pure a, f => f a
  | .raise e, _ => .raise e
  | .read next, f => .read fun s => (next s).bind f
  | .lock k next, f => .lock k fun r => (next r).bind f
  | .tryLock k next, f => .tryLock k fun r => (next r).bind f
  | .stage w next, f => .stage w (next.bind f)
  | .flush next, f => .flush (next.bind f)
  | .draw next, f => .draw fun i => (next i).bind f
  | .ask q next, f => .ask q fun a => (next a).bind f
  | .call q next, f => .call q fun a => (next a).bind f
  | .commit next, f => .commit (next.bind f)

instance : Monad (Prog B) where
  pure := .pure
  bind := bind

theorem bind_assoc (p : Prog B α) (f : α → Prog B β) (g : β → Prog B γ) :
    (p >>= f) >>= g = p >>= fun a => f a >>= g := by
  change (p.bind f).bind g = p.bind fun a => (f a).bind g
  induction p with
  | pure a => rfl
  | raise e => rfl
  | read next ih => exact congrArg Prog.read (funext ih)
  | lock k next ih => exact congrArg (Prog.lock k) (funext ih)
  | tryLock k next ih => exact congrArg (Prog.tryLock k) (funext ih)
  | stage w next ih => exact congrArg (Prog.stage w) ih
  | flush next ih => exact congrArg Prog.flush ih
  | draw next ih => exact congrArg Prog.draw (funext ih)
  | ask q next ih => exact congrArg (Prog.ask q) (funext ih)
  | call q next ih => exact congrArg (Prog.call q) (funext ih)
  | commit next ih => exact congrArg Prog.commit ih

/-- The value of a program that has nothing left to do. -/
def value? : Prog B α → Option α
  | .pure a => some a
  | _ => none

/-- The error of a program that has raised one. -/
def error? : Prog B α → Option B.Error
  | .raise e => some e
  | _ => none

theorem eq_pure_of_value? {p : Prog B α} {a : α} (h : p.value? = some a) : p = .pure a := by
  cases p with
  | pure b =>
    cases h
    rfl
  | _ => contradiction

theorem eq_raise_of_error? {p : Prog B α} {e : B.Error} (h : p.error? = some e) :
    p = .raise e := by
  cases p with
  | raise e' =>
    cases h
    rfl
  | _ => contradiction

/-- A plain `SELECT`: reads the view and locks nothing. -/
def select (f : B.Store → α) : Prog B α := .read fun s => .pure (f s)

/-- `SELECT ... FOR UPDATE` of one key. A key without a row locks nothing. -/
def lockRow (k : B.Key) : Prog B (Option B.Row) := .lock k .pure

/-- `SELECT ... FOR UPDATE SKIP LOCKED` of one key. A row that another transaction
holds is passed over. -/
def tryLockRow (k : B.Key) : Prog B (Option B.Row) := .tryLock k .pure

def stageRow (w : Write B) : Prog B Unit := .stage w (.pure ())

def flushAll : Prog B Unit := .flush (.pure ())

def drawIdent : Prog B B.Ident := .draw .pure

/-- A value read from the surroundings inside a transaction. -/
def askFor (q : B.Query) : Prog B (B.Answer q) := .ask q .pure

/-- A call to an outside service, made with no transaction open. -/
def callOut (q : B.Query) : Prog B (B.Answer q) := .call q .pure

/-- Leaving a transaction block normally: flush what is staged, then commit. -/
def commitAll : Prog B Unit := .flush (.commit (.pure ()))

def stageRows : List (Write B) → Prog B Unit
  | [] => .pure ()
  | w :: ws => .stage w (stageRows ws)

end Prog

end RowLocking
