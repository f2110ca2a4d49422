import ApexPayments.RowLocking.Serial

/-!
Strict two-phase locking is serializable. A program that locks every row it reads, and
inserts at once a row that it finds missing, does in a concurrent run what it does alone
at the moment of its last statement, unless such an insert meets a row that another
transaction has committed in the meantime.
-/
namespace RowLocking

variable {B : Backend} {C α β : Type}

namespace Session

/-- The session as if all its reads had been made at one store. -/
def readAt (s : B.Store) (L : Session B) : Session B :=
  { L with snapshots := L.snapshots.map fun _ => s }

@[simp] theorem readAt_fresh (s : B.Store) : (fresh B).readAt s = fresh B := rfl

@[simp] theorem readAt_see (s t : B.Store) (L : Session B) :
    (L.see t).readAt s = (L.readAt s).see s := rfl

@[simp] theorem readAt_flushed (s : B.Store) (L : Session B) : (L.readAt s).flushed = L.flushed := rfl

@[simp] theorem readAt_pending (s : B.Store) (L : Session B) : (L.readAt s).pending = L.pending := rfl

end Session

namespace Frame

variable {F : Frame B}

/-- A statement that a store of the window accepts is accepted by the last one. -/
def Stable (F : Frame B) : Prop :=
  ∀ s fl r, F.Sees s → B.violation (view s fl) r = none → B.violation (view F.hi fl) r = none

theorem reads_alone (L : Session B) : (alone F.hi F.spent).Reads (L.readAt F.hi) F.hi := by
  refine ⟨⟨rfl, rfl⟩, ?_⟩
  intro t ht
  obtain ⟨_, _, rfl⟩ := List.mem_map.mp ht
  rfl

theorem Stable.accepts (hF : F.Stable) {fl : List (Write B)} {w : Write B}
    (h : F.Accepts fl w) : (alone F.hi F.spent).Accepts fl w := by
  obtain ⟨hnew, s, hs, hv⟩ := h
  exact ⟨hnew, F.hi, ⟨rfl, rfl⟩, hF s fl w.row hs hv⟩

theorem Stable.flushFails (hF : F.Stable) {e : B.Error} {fl ws : List (Write B)}
    (h : F.FlushFails e fl ws) : (alone F.hi F.spent).FlushFails e fl ws := by
  induction ws generalizing fl with
  | nil => exact h
  | cons w ws ih =>
    rcases h with h | ⟨ha, h⟩
    · exact Or.inl h
    · exact Or.inr ⟨hF.accepts ha, ih h⟩

end Frame

namespace Prog

/-- Every row is locked before it is read, and a row with a key in `K` that a lookup does
not find is inserted at once. `clean` says that nothing is staged. -/
inductive LocksFirst (K : B.Key → Prop) : Bool → Prog B α → Prop
  | pure (clean : Bool) (a : α) : LocksFirst K clean (.pure a)
  | raise (clean : Bool) (e : B.Error) : LocksFirst K clean (.raise e)
  | lock (k : B.Key) (next : Option B.Row → Prog B α) (r : B.Row) (rest : Prog B α) (hK : K k)
      (hr : B.keyOf r = k) (hsome : ∀ x, LocksFirst K true (next (some x)))
      (hnone : next none = .stage (.insert r) (.flush rest)) (hrest : LocksFirst K true rest) :
      LocksFirst K true (.lock k next)
  | stage (clean : Bool) (w : Write B) (next : Prog B α) (h : LocksFirst K false next) :
      LocksFirst K clean (.stage w next)
  | flush (clean : Bool) (next : Prog B α) (h : LocksFirst K true next) :
      LocksFirst K clean (.flush next)
  | draw (clean : Bool) (next : B.Ident → Prog B α) (h : ∀ i, LocksFirst K clean (next i)) :
      LocksFirst K clean (.draw next)
  | ask (clean : Bool) (q : B.Query) (next : B.Answer q → Prog B α)
      (h : ∀ a, LocksFirst K clean (next a)) : LocksFirst K clean (.ask q next)
  | commit (clean : Bool) (next : Prog B α) : LocksFirst K clean (.commit next)

variable {K : B.Key → Prop} {clean : Bool}

theorem LocksFirst.weaken {p : Prog B α} (h : p.LocksFirst K false) : p.LocksFirst K clean := by
  generalize hfalse : false = b at h
  induction h with
  | pure b a => exact .pure clean a
  | raise b e => exact .raise clean e
  | lock k next r rest hK hr hsome hnone hrest => contradiction
  | stage b w next h => exact .stage clean w next h
  | flush b next h => exact .flush clean next h
  | draw b next h ih => exact .draw clean next fun i => ih i hfalse
  | ask b q next h ih => exact .ask clean q next fun a => ih a hfalse
  | commit b next => exact .commit clean next

theorem LocksFirst.bind {p : Prog B α} {f : α → Prog B β} (hp : p.LocksFirst K clean)
    (hf : ∀ a, (f a).LocksFirst K false) : (p >>= f).LocksFirst K clean := by
  change (p.bind f).LocksFirst K clean
  induction hp with
  | pure b a => exact (hf a).weaken
  | raise b e => exact .raise b e
  | lock k next r rest hK hr hsome hnone hrest ihsome ihrest =>
    refine .lock k _ r (rest.bind f) hK hr ihsome ?_ ihrest
    rw [hnone]
    rfl
  | stage b w next h ih => exact .stage b w _ ih
  | flush b next h ih => exact .flush b _ ih
  | draw b next h ih => exact .draw b _ ih
  | ask b q next h ih => exact .ask b q _ ih
  | commit b next => exact .commit b _

theorem locksFirst_stageRows (ws : List (Write B)) : (stageRows ws).LocksFirst K clean := by
  induction ws generalizing clean with
  | nil => exact .pure clean ()
  | cons w ws ih => exact .stage clean w _ ih

theorem LocksFirst.inTransaction {p : Prog B α} (hp : p.LocksFirst K true) :
    p.inTransaction.LocksFirst K true :=
  hp.bind fun _ => .flush false _ (.commit true _)

end Prog

section Standing

variable {F : Frame B} {K : B.Key → Prop} {base : Prog B α}

/-- How a transaction in progress compares with its program run alone at the last store:
it does the same, or it is about to insert a row that a lookup has just missed. -/
inductive Standing (F : Frame B) (K : B.Key → Prop) (base : Prog B α) :
    Prog B α × Session B → Prop
  | same (clean : Bool) (p : Prog B α) (L : Session B)
      (h : Replay (.alone F.hi F.spent) base (p, L.readAt F.hi)) (hp : p.LocksFirst K clean)
      (hclean : clean = true → L.pending = []) : Standing F K base (p, L)
  | missed (next : Option B.Row → Prog B α) (r : B.Row) (rest : Prog B α) (L : Session B)
      (s : B.Store) (h : Replay (.alone F.hi F.spent) base (.lock (B.keyOf r) next, L.readAt F.hi))
      (hK : K (B.keyOf r)) (hnone : next none = .stage (.insert r) (.flush rest))
      (hrest : rest.LocksFirst K true) (hp : L.pending = []) :
      Standing F K base (next none, L.see s)
  | staged (next : Option B.Row → Prog B α) (r : B.Row) (rest : Prog B α) (L : Session B)
      (s : B.Store) (h : Replay (.alone F.hi F.spent) base (.lock (B.keyOf r) next, L.readAt F.hi))
      (hK : K (B.keyOf r)) (hnone : next none = .stage (.insert r) (.flush rest))
      (hrest : rest.LocksFirst K true) (hp : L.pending = []) :
      Standing F K base (.flush rest, (L.see s).stage (.insert r))

/-- The lookup and the staging of a row that is missing from the last store as well. -/
theorem replay_missing {next : Option B.Row → Prog B α} {r : B.Row} {rest : Prog B α}
    {L : Session B}
    (h : Replay (.alone F.hi F.spent) base (.lock (B.keyOf r) next, L.readAt F.hi))
    (hnone : next none = .stage (.insert r) (.flush rest))
    (hmissing : B.get (view F.hi L.flushed) (B.keyOf r) = none) (s : B.Store) :
    Replay (.alone F.hi F.spent) base
      (.flush rest, ((L.see s).stage (.insert r)).readAt F.hi) := by
  have habsent := h.tail (.absent (B.keyOf r) next (L.readAt F.hi) F.hi (Frame.reads_alone L) hmissing)
  rw [hnone] at habsent
  exact habsent.tail (.stage (.insert r) (.flush rest) _)

/-- One statement. -/
theorem standing_move (hF : F.Stable) {c c' : Prog B α × Session B} (hs : Standing F K base c)
    (hm : Move F c c') : Standing F K base c' := by
  cases hs with
  | same clean p L h hp hclean =>
    cases hm with
    | read next L s hs => cases hp
    | absent k next L s hs hn =>
      cases hp with
      | lock k next r rest hK hr hsome hnone hrest =>
        subst hr
        exact .missed next r rest L s h hK hnone hrest (hclean rfl)
    | lock k next L r hr =>
      cases hp with
      | lock k next r' rest hK hr' hsome hnone hrest =>
        exact .same true _ _ (h.tail (.lock k next (L.readAt F.hi) r hr)) (hsome r) hclean
    | tryAbsent k next L s hs hn => cases hp
    | tryLock k next L r hr => cases hp
    | skip k next L hk => cases hp
    | stage w next L =>
      cases hp with
      | stage _ w next hnext =>
        exact .same false _ _ (h.tail (.stage w next (L.readAt F.hi))) hnext (by simp)
    | flushed next L hp' =>
      cases hp with
      | flush _ next hnext =>
        exact .same true _ _ (h.tail (.flushed next (L.readAt F.hi) hp')) hnext fun _ => hp'
    | execute next L w ws hp' ha =>
      cases hp with
      | flush _ next hnext =>
        exact .same false _ _ (h.tail (.execute next (L.readAt F.hi) w ws hp' (hF.accepts ha)))
          (.flush false next hnext) (by simp)
    | draw next L i hi hd =>
      cases hp with
      | draw _ next hnext =>
        exact .same clean _ _ (h.tail (.draw next (L.readAt F.hi) i hi hd)) (hnext i) hclean
    | ask q next L a =>
      cases hp with
      | ask _ q next hnext =>
        exact .same clean _ _ (h.tail (.ask q next (L.readAt F.hi) a)) (hnext a) hclean
  | missed next r rest L s h hK hnone hrest hp =>
    rw [hnone] at hm
    cases hm with
    | stage w next' L' => exact .staged next r rest L s h hK hnone hrest hp
  | staged next r rest L s h hK hnone hrest hp =>
    cases hm with
    | flushed next' L' hp' =>
      simp [Session.stage] at hp'
    | execute next' L' w ws hp' ha =>
      obtain ⟨rfl, rfl⟩ : Write.insert r = w ∧ [] = ws := by
        simpa [Session.stage, Session.see, hp] using hp'
      have hmissing : B.get (view F.hi L.flushed) (B.keyOf r) = none := ha.1 r rfl
      have hreplay := replay_missing h hnone hmissing s
      exact .same false _ _ (hreplay.tail (.execute rest _ _ [] hp' (hF.accepts ha)))
        (.flush false rest hrest) (by simp)

/-- All statements up to now. -/
theorem standing_of_replay (hF : F.Stable) (hbase : base.LocksFirst K true)
    {c : Prog B α × Session B} (h : Replay F base c) : Standing F K base c := by
  induction h with
  | refl => exact .same true base (.fresh B) .refl hbase fun _ => rfl
  | tail _ hm ih => exact standing_move hF ih hm

theorem replay_of_commit (hF : F.Stable) (hbase : base.LocksFirst K true) {next : Prog B α}
    {L : Session B} (h : Replay F base (.commit next, L)) :
    Replay (.alone F.hi F.spent) base (.commit next, L.readAt F.hi) := by
  generalize hc : (Prog.commit next, L) = c at h
  cases standing_of_replay hF hbase h with
  | same clean p L' hsame hp hclean =>
    cases hc
    exact hsame
  | missed next' r rest L' s hlock hK hnone hrest hp =>
    rw [hnone] at hc
    cases hc
  | staged next' r rest L' s hlock hK hnone hrest hp => cases hc

theorem runs_of_raise (hF : F.Stable) (hbase : base.LocksFirst K true) {e : B.Error}
    {L : Session B} (h : Replay F base (.raise e, L)) :
    base.Runs (.alone F.hi F.spent) (.fresh B) (.raised e (L.readAt F.hi)) := by
  generalize hc : (Prog.raise e, L) = c at h
  cases standing_of_replay hF hbase h with
  | same clean p L' hsame hp hclean =>
    cases hc
    exact runs_of_replay hsame rfl
  | missed next' r rest L' s hlock hK hnone hrest hp =>
    rw [hnone] at hc
    cases hc
  | staged next' r rest L' s hlock hK hnone hrest hp => cases hc

/-- A statement that the store refuses is refused alone as well, unless it inserts a row
that a lookup has missed. -/
theorem runs_of_flushFails (hF : F.Stable) (hbase : base.LocksFirst K true) {e : B.Error}
    {next : Prog B α} {L : Session B} (h : Replay F base (.flush next, L))
    (hfails : F.FlushFails e L.flushed L.pending) :
    (∃ L', base.Runs (.alone F.hi F.spent) (.fresh B) (.raised e L')) ∨
      ∃ r ws, L.pending = .insert r :: ws ∧ K (B.keyOf r) ∧
        (B.get (view F.hi L.flushed) (B.keyOf r)).isSome := by
  have hruns : ∀ L₁ : Session B, Replay (.alone F.hi F.spent) base (.flush next, L₁.readAt F.hi) →
      F.FlushFails e L₁.flushed L₁.pending →
      ∃ L', base.Runs (.alone F.hi F.spent) (.fresh B) (.raised e L') := fun L₁ h₁ hfails₁ =>
    ⟨L₁, runs_of_replay h₁ (Or.inr ⟨e, L₁, hF.flushFails hfails₁, rfl⟩)⟩
  generalize hc : (Prog.flush next, L) = c at h
  cases standing_of_replay hF hbase h with
  | same clean p L' hsame hp hclean =>
    cases hc
    exact Or.inl (hruns L hsame hfails)
  | missed next' r rest L' s hlock hK hnone hrest hp =>
    rw [hnone] at hc
    cases hc
  | staged next' r rest L' s hlock hK hnone hrest hp =>
    cases hc
    by_cases hsome : (B.get (view F.hi L'.flushed) (B.keyOf r)).isSome
    · refine Or.inr ⟨r, [], ?_, hK, hsome⟩
      simp [Session.stage, Session.see, hp]
    · have hmissing : B.get (view F.hi L'.flushed) (B.keyOf r) = none := by simpa using hsome
      exact Or.inl (hruns _ (replay_missing hlock hnone hmissing s) hfails)

end Standing

namespace Prog

/-- A program that has ended with a result. -/
def ofResult : Except B.Error α → Prog B α
  | .ok a => .pure a
  | .error e => .raise e

theorem ofResult_injective : Function.Injective (ofResult : Except B.Error α → Prog B α) := by
  intro x y h
  cases x <;> cases y <;> cases h <;> rfl

theorem ne_ofResult {p : Prog B α} (hv : ∀ v, p ≠ .pure v) (he : ∀ e, p ≠ .raise e) :
    ∀ r, p ≠ .ofResult r
  | .ok v => hv v
  | .error e => he e

/-- A transaction block commits a value or raises. -/
theorem Inside.commits {F : Frame B} {p : Prog B α} (hp : p.Inside) :
    p.inTransaction.Ensures F (.fresh B)
      (Stop.Commits (fun _ => True) fun next _ => ∃ a, next = .pure a) := by
  refine Ensures.bind (hp.ends (.fresh B)) (fun _ _ _ => trivial) ?_
  intro a L _
  refine Ensures.commitAll ?_ ?_
  · intro _
    exact ⟨fun _ _ => trivial, fun _ => ⟨a, rfl⟩⟩
  · intro _ _ _
    trivial

end Prog

/-- One more call is served after the others. -/
theorem Serial.snoc {program : C → Prog B α} {s s₁ s₂ : B.Store} {spent spent₁ spent₂ : List B.Ident}
    {es : List (Served B C α)} {c : C} {r : Except B.Error α}
    (h : Serial program s spent es s₁ spent₁) (ht : Transacts (program c) s₁ spent₁ r s₂ spent₂) :
    Serial program s spent (es ++ [⟨c, s₁, r, s₂⟩]) s₂ spent₂ := by
  induction h with
  | nil s spent => exact .cons c r s s₂ s₂ spent spent₂ spent₂ [] ht (.nil s₂ spent₂)
  | cons c' r' s s' s'' spent spent' spent'' es h' _ ih =>
    exact .cons c' r' s s' s₂ spent spent' spent₂ _ h' (ih ht)

/-- Every call that was served ran as a transaction of its own. -/
theorem Serial.transacts {program : C → Prog B α} {s s' : B.Store} {spent spent' : List B.Ident}
    {es : List (Served B C α)} (h : Serial program s spent es s' spent') :
    ∀ e ∈ es, ∃ s₁ s₂ spent₁ spent₂, Transacts (program e.call) s₁ spent₁ e.result s₂ spent₂ := by
  induction h with
  | nil s spent => simp
  | cons c r s s₁ s₂ spent spent₁ spent₂ es ht rest ih =>
    intro e he
    rcases List.mem_cons.mp he with rfl | he
    · exact ⟨_, _, _, _, ht⟩
    · exact ih e he

namespace System

section Order

variable {program : C → Prog B α} {older : B.Store → B.Store → Prop} {skips K : B.Key → Prop}
  {db : B.Store} {spent : List B.Ident} {σ σ' : System B C α} {es : List (ℕ × Served B C α)}

/-- The next statement inserts a row with a key in `K` that is committed by now. -/
def Collides (K : B.Key → Prop) (σ : System B C α) (l : Label B C) : Prop :=
  ∃ p next r ws, σ.procs l.pid = some p ∧ p.prog = .flush next ∧
    p.session.pending = .insert r :: ws ∧ K (B.keyOf r) ∧
    (B.get (view σ.db p.session.flushed) (B.keyOf r)).isSome

/-- The processes that have ended, served one after the other. -/
structure InOrder (program : C → Prog B α) (db : B.Store) (spent : List B.Ident)
    (σ : System B C α) (es : List (ℕ × Served B C α)) : Prop where
  serial : Serial program db spent (es.map Prod.snd) σ.db σ.spent
  once : (es.map Prod.fst).Nodup
  served : ∀ e ∈ es, ∃ p, σ.procs e.1 = some p ∧ p.call = e.2.call ∧
    p.prog = .ofResult e.2.result
  waiting : ∀ pid p, σ.procs pid = some p → pid ∉ es.map Prod.fst →
    p.base = (program p.call).inTransaction ∧ ∀ r, p.prog ≠ .ofResult r

theorem inOrder_initial : InOrder program db spent (initial db spent) [] where
  serial := .nil db spent
  once := List.nodup_nil
  served := by simp
  waiting := by
    intro pid p hp
    contradiction

theorem InOrder.served_of_others (h : InOrder program db spent σ es) {pid : ℕ}
    (hnew : pid ∉ es.map Prod.fst) (hothers : ∀ pid', pid' ≠ pid → σ'.procs pid' = σ.procs pid') :
    ∀ e ∈ es, ∃ p, σ'.procs e.1 = some p ∧ p.call = e.2.call ∧ p.prog = .ofResult e.2.result := by
  intro e he
  have hne : e.1 ≠ pid := by
    intro heq
    exact hnew (heq ▸ List.mem_map_of_mem he)
  rw [hothers e.1 hne]
  exact h.served e he

/-- A process ends. -/
theorem InOrder.serve (h : InOrder program db spent σ es) {pid : ℕ} {p : Process B C α}
    {r : Except B.Error α} (hnew : pid ∉ es.map Prod.fst)
    (hothers : ∀ pid', pid' ≠ pid → σ'.procs pid' = σ.procs pid') (hself : σ'.procs pid = some p)
    (hprog : p.prog = .ofResult r)
    (ht : Transacts (program p.call) σ.db σ.spent r σ'.db σ'.spent) :
    InOrder program db spent σ' (es ++ [(pid, ⟨p.call, σ.db, r, σ'.db⟩)]) where
  serial := by
    rw [List.map_append]
    exact h.serial.snoc ht
  once := by
    rw [List.map_append, List.nodup_append]
    refine ⟨h.once, by simp, ?_⟩
    intro x hx y hy
    obtain rfl : y = pid := by simpa using hy
    rintro rfl
    exact hnew hx
  served := by
    intro e he
    rcases List.mem_append.mp he with he | he
    · exact h.served_of_others hnew hothers e he
    · obtain rfl := List.mem_singleton.mp he
      exact ⟨p, hself, rfl, hprog⟩
  waiting := by
    intro pid' q hq hnot
    rw [List.map_append, List.mem_append, not_or] at hnot
    have hne : pid' ≠ pid := by
      intro heq
      simp [heq] at hnot
    rw [hothers pid' hne] at hq
    exact h.waiting pid' q hq hnot.1

/-- A process moves on. -/
theorem InOrder.wait (h : InOrder program db spent σ es) {pid : ℕ} {p : Process B C α}
    (hnew : pid ∉ es.map Prod.fst) (hothers : ∀ pid', pid' ≠ pid → σ'.procs pid' = σ.procs pid')
    (hself : σ'.procs pid = some p) (hdb : σ'.db = σ.db) (hspent : σ'.spent = σ.spent)
    (hbase : p.base = (program p.call).inTransaction) (hprog : ∀ r, p.prog ≠ .ofResult r) :
    InOrder program db spent σ' es where
  serial := by
    rw [hdb, hspent]
    exact h.serial
  once := h.once
  served := h.served_of_others hnew hothers
  waiting := by
    intro pid' q hq hnot
    by_cases hpid : pid' = pid
    · subst hpid
      obtain rfl := Option.some.inj (hself.symm.trans hq)
      exact ⟨hbase, hprog⟩
    · rw [hothers pid' hpid] at hq
      exact h.waiting pid' q hq hnot

/-- A process that takes a step has not ended. -/
theorem InOrder.new_of_active (h : InOrder program db spent σ es) {pid : ℕ} {p : Process B C α}
    (hp : σ.procs pid = some p) (hprog : ∀ r, p.prog ≠ .ofResult r) :
    pid ∉ es.map Prod.fst := by
  intro hmem
  obtain ⟨e, he, rfl⟩ := List.mem_map.mp hmem
  obtain ⟨q, hq, -, hend⟩ := h.served e he
  obtain rfl := Option.some.inj (hp.symm.trans hq)
  exact hprog _ hend

variable (hinside : ∀ c, (program c).Inside) (hlocks : ∀ c, (program c).LocksFirst K true)
  (hrefl : ∀ s, older s s)
  (hstable : ∀ s t fl r, older s t → B.violation (view s fl) r = none →
    B.violation (view t fl) r = none)

theorem runs_of_accepted {F : Frame B} {next : Prog B α} {L : Session B} (hp : L.pending = [])
    (hd : B.deferred (view F.hi L.flushed) (L.flushed.filterMap Write.inserted) = none) :
    (Prog.commit next).Runs F L (.committed next L) := by
  simp only [Prog.Runs, hd, hp, and_self]

theorem runs_of_rejected {F : Frame B} {next : Prog B α} {L : Session B} {e : B.Error}
    (hp : L.pending = [])
    (hd : B.deferred (view F.hi L.flushed) (L.flushed.filterMap Write.inserted) = some e) :
    (Prog.commit next).Runs F L (.raised e L) := by
  simp only [Prog.Runs, hd, hp, and_self]

include hinside hlocks hrefl hstable in
/-- One step of a run without collisions: what ends in it could have run alone. -/
theorem inOrder_step (hsound : Sound older skips σ) (h : InOrder program db spent σ es)
    {l : Label B C} {act : Option (Atomic.Act B C)}
    (hs : Stepped (fun c => (program c).inTransaction) σ l act σ') (hskips : SkipsOnly skips σ l)
    (hcancel : ¬ l.isCancel) (hcollides : ¬ Collides K σ l) :
    ∃ es', InOrder program db spent σ' es' := by
  have hothers : ∀ pid, pid ≠ l.pid → σ'.procs pid = σ.procs pid := fun _ => hs.procs_of_ne
  have hF : ∀ s, Frame.Stable ⟨older, s, σ.db, σ.spent, skips⟩ := fun _ t fl r ht hv =>
    hstable t σ.db fl r ht.2 hv
  -- a process in progress is that of a call which has not ended
  have hactive : ∀ {pid p}, σ.procs pid = some p → (∀ r, p.prog ≠ .ofResult r) →
      pid ∉ es.map Prod.fst ∧ Replay ⟨older, p.since, σ.db, σ.spent, skips⟩
        (program p.call).inTransaction (p.prog, p.session) ∧
      p.base = (program p.call).inTransaction := by
    intro pid p hp hprog
    have hnew := h.new_of_active hp hprog
    have hbase := (h.waiting pid p hp hnew).1
    have hreplay := (hsound.replayed pid p hp).replay
    rw [hbase] at hreplay
    exact ⟨hnew, hreplay, hbase⟩
  have hraise : ∀ {pid p e L}, σ.procs pid = some p → pid ∉ es.map Prod.fst → pid = l.pid →
      σ' = σ.abort pid p e →
      (program p.call).inTransaction.Runs (.alone σ.db σ.spent) (.fresh B) (.raised e L) →
      ∃ es', InOrder program db spent σ' es' := by
    intro pid p e L hp hnew hpid hσ' hruns
    subst hpid
    refine ⟨_, h.serve hnew hothers (p := .atBoundary (p.toHeader.resume σ.db (.raise e) []))
      (r := .error e) ?_ rfl ?_⟩
    · rw [hσ']
      exact procs_set_self ..
    · rw [hσ']
      exact .rolledBack e L hruns
  cases hs with
  | start pid c hp =>
    have hnew : pid ∉ es.map Prod.fst := by
      intro hmem
      obtain ⟨e, he, rfl⟩ := List.mem_map.mp hmem
      obtain ⟨q, hq, -⟩ := h.served e he
      rw [hp] at hq
      contradiction
    have hself := procs_set_self σ pid (.atBoundary ⟨c, σ.db, (program c).inTransaction, []⟩)
    by_cases hraised : ∃ e, (program c).inTransaction = .raise e
    · obtain ⟨e, he⟩ := hraised
      refine ⟨_, h.serve (r := .error e) hnew hothers hself he ?_⟩
      refine .rolledBack e (.fresh B) ?_
      change (program c).inTransaction.Runs _ _ _
      rw [he]
      rfl
    · refine ⟨es, h.wait hnew hothers hself rfl rfl rfl ?_⟩
      apply Prog.ne_ofResult
      · intro v hv
        have hends := (hinside c).commits (F := .alone σ.db []) (.value v (.fresh B)) (by
          change (program c).inTransaction = .pure v at hv
          rw [hv]
          rfl)
        exact hends
      · exact fun e he => hraised ⟨e, he⟩
  | cancel pid p hp hv he => exact absurd trivial hcancel
  | call pid o p q next hp hq hL =>
    obtain ⟨-, hreplay, -⟩ := hactive hp (Prog.ne_ofResult (by simp [hq]) (by simp [hq]))
    rw [hq] at hreplay
    exact ((hinside p.call).commits _ (runs_of_replay (o := .calling q next p.session) hreplay rfl)).elim
  | commit pid o p next hp hq hL hd =>
    obtain ⟨hnew, hreplay, -⟩ := hactive hp (Prog.ne_ofResult (by simp [hq]) (by simp [hq]))
    rw [hq] at hreplay
    have halone := replay_of_commit (hF p.since) (hlocks p.call).inTransaction hreplay
    have hruns := runs_of_replay halone (runs_of_accepted (F := .alone σ.db σ.spent)
      (L := p.session.readAt σ.db) hL hd)
    obtain ⟨a, rfl⟩ := (hinside p.call).commits _ hruns
    exact ⟨_, h.serve (r := .ok a) hnew hothers (procs_set_self ..) rfl
      (.committed a (p.session.readAt σ.db) hruns)⟩
  | deferred pid o p next e hp hq hL hd =>
    obtain ⟨hnew, hreplay, -⟩ := hactive hp (Prog.ne_ofResult (by simp [hq]) (by simp [hq]))
    rw [hq] at hreplay
    have halone := replay_of_commit (hF p.since) (hlocks p.call).inTransaction hreplay
    have hruns := runs_of_replay halone (runs_of_rejected (F := .alone σ.db σ.spent)
      (L := p.session.readAt σ.db) hL hd)
    exact hraise hp hnew rfl rfl hruns
  | refused pid o p e L hp hl =>
    have hact := localStep_active hl
    obtain ⟨hnew, hreplay, -⟩ := hactive hp (Prog.ne_ofResult hact.1 hact.2)
    have hr := hsound.replayed pid p hp
    rcases localStep_cases (F := ⟨older, p.since, σ.db, σ.spent, skips⟩) rfl (hr.reads hrefl)
      hsound.spent_issued (fun i hm => (hr.drawn i hm).1) (SkipsOnly.passes hskips hp) hl with
      hm | ⟨next, e', hq, he', hf⟩
    · exact hraise hp hnew rfl rfl
        (runs_of_raise (hF p.since) (hlocks p.call).inTransaction (hreplay.tail hm))
    · cases he'
      rw [hq] at hreplay
      rcases runs_of_flushFails (hF p.since) (hlocks p.call).inTransaction hreplay hf with
        ⟨L', hruns⟩ | ⟨r, ws, hpending, hK, hsome⟩
      · exact hraise hp hnew rfl rfl hruns
      · exact absurd ⟨p, next, r, ws, hp, hq, hpending, hK, hsome⟩ hcollides
  | advance pid o p prog L issued hp he hl hi =>
    have hact := localStep_active hl
    obtain ⟨hnew, hreplay, hbase⟩ := hactive hp (Prog.ne_ofResult hact.1 hact.2)
    have hr := hsound.replayed pid p hp
    refine ⟨es, h.wait hnew hothers (procs_set_self ..) rfl rfl hbase ?_⟩
    refine Prog.ne_ofResult ?_ he
    intro v hv
    obtain rfl : prog = .pure v := hv
    rcases localStep_cases (F := ⟨older, p.since, σ.db, σ.spent, skips⟩) rfl (hr.reads hrefl)
      hsound.spent_issued (fun i hm => (hr.drawn i hm).1) (SkipsOnly.passes hskips hp) hl with
      hm | ⟨next, e', _, he', _⟩
    · exact (hinside p.call).commits _ (runs_of_replay (o := .value v L) (hreplay.tail hm) rfl)
    · contradiction

include hinside in
/-- Every process is about to run its transaction or has ended. -/
theorem transaction_of_reach {a₀ a : Atomic B C α} (h₀ : ∀ pid, a₀.heads pid = none)
    (h : Atomic.Reach (fun c => (program c).inTransaction) (fun _ _ => True) older skips a₀ a) :
    ∀ pid hd, a.heads pid = some hd →
      hd.base = (program hd.call).inTransaction ∨ ∃ r, hd.base = .ofResult r := by
  induction h with
  | refl =>
    intro pid hd hp
    rw [h₀ pid] at hp
    contradiction
  | tail _ hstep ih =>
    obtain ⟨act, hs, -⟩ := hstep
    intro pid' hd' hp'
    cases hs with
    | start pid c hp =>
      rcases Atomic.heads_put hp' with ⟨rfl, rfl⟩ | ⟨-, hp'⟩
      · exact Or.inl rfl
      · exact ih pid' hd' hp'
    | call pid hd q next ans L hp ho hr =>
      rcases ih pid hd hp with hb | ⟨r, hb⟩
      · rw [hb] at hr
        exact ((hinside hd.call).commits _ hr).elim
      · rw [hb] at hr
        cases r <;> contradiction
    | commit pid hd next L hp ho hr =>
      rcases Atomic.heads_put hp' with ⟨rfl, rfl⟩ | ⟨-, hp'⟩
      · rcases ih pid' hd hp with hb | ⟨r, hb⟩
        · rw [hb] at hr
          obtain ⟨v, rfl⟩ := (hinside hd.call).commits _ hr
          exact Or.inr ⟨.ok v, rfl⟩
        · rw [hb] at hr
          cases r <;> contradiction
      · exact ih pid' hd' hp'
    | fail pid hd e hp ho hr hv he =>
      rcases Atomic.heads_put hp' with ⟨rfl, rfl⟩ | ⟨-, hp'⟩
      · exact Or.inr ⟨.error e, rfl⟩
      · exact ih pid' hd' hp'

variable (htrans : ∀ s t u, older s t → older t u → older s u)
  (hgrow : ∀ (F : Frame B) c next L,
    (program c).inTransaction.Runs F (.fresh B) (.committed next L) → older F.hi (view F.hi L.flushed))

include hinside hrefl htrans hgrow in
theorem sound_of_transactions {ok : System B C α → Label B C → Prop}
    (h : Run (fun c => (program c).inTransaction) ok (initial db spent) σ) :
    Sound older (fun _ => True) σ := by
  have hmono : ∀ a act a', Atomic.Reach (fun c => (program c).inTransaction) (fun _ _ => True) older
      (fun _ => True) (initial db spent : System B C α).toAtomic a →
      Atomic.Step (fun c => (program c).inTransaction) older (fun _ => True) a act a' →
      older a.db a'.db := by
    intro a act a' hreach hs
    have hbases := transaction_of_reach hinside (fun _ => rfl) hreach
    cases hs with
    | start pid c hp => exact hrefl _
    | call pid hd q next ans L hp ho hr => exact hrefl _
    | commit pid hd next L hp ho hr =>
      rcases hbases pid hd hp with hb | ⟨r, hb⟩
      · rw [hb] at hr
        exact hgrow _ hd.call next L hr
      · rw [hb] at hr
        cases r <;> contradiction
    | fail pid hd e hp ho hr hv he => exact hrefl _
  have hreached : Sound older (fun _ => True) σ ∧ Atomic.Reach (fun c => (program c).inTransaction)
      (fun _ _ => True) older (fun _ => True) (initial db spent : System B C α).toAtomic σ.toAtomic :=
    reach_of_run hrefl htrans (fun _ _ _ _ _ _ => trivial) hmono (fun _ _ _ _ _ _ _ _ _ => trivial)
      (sound_initial db spent) h
  exact hreached.1

include hinside hlocks hrefl hstable htrans hgrow in
/-- Strict two-phase locking: without cancellations and collisions, the processes of a run
that have ended could have been served one after the other. -/
theorem inOrder_of_run
    (h : Run (fun c => (program c).inTransaction) (fun σ l => ¬ l.isCancel ∧ ¬ Collides K σ l)
      (initial db spent) σ) : ∃ es, InOrder program db spent σ es := by
  induction h with
  | refl => exact ⟨[], inOrder_initial⟩
  | @tail σ₁ σ₂ hrun hstep ih =>
    obtain ⟨es, hes⟩ := ih
    obtain ⟨l, hl, hcancel, hcollides⟩ := hstep
    obtain ⟨act, hs⟩ := stepped_of_step hl
    have hsound := sound_of_transactions hinside hrefl htrans hgrow hrun
    exact inOrder_step hinside hlocks hrefl hstable hsound hes hs (fun _ _ _ _ _ => trivial) hcancel
      hcollides

/-- What is inserted twice is refused, and the transaction raises. -/
theorem raised_of_collides {l : Label B C}
    (hs : σ.step program l = some σ') (hcancel : ¬ l.isCancel) (h : Collides K σ l) :
    ∃ r p, K (B.keyOf r) ∧ σ'.procs l.pid = some p ∧ p.prog = .raise (B.duplicate r) := by
  obtain ⟨p, next, r, ws, hp, hq, hpending, hK, hsome⟩ := h
  obtain ⟨pid, c⟩ | ⟨pid, o⟩ | pid := l
  · rw [Label.pid] at hp
    simp [step, hp] at hs
  · rw [Label.pid] at hp
    have hstep : localStep σ.db (σ.free pid) σ.issued o p.prog p.session =
        if σ.free pid (B.keyOf r) then some (.raise (B.duplicate r), p.session) else none := by
      simp [hq, localStep, hpending, Write.key, Write.row, Write.rejected, hsome]
    refine ⟨r, .atBoundary (p.toHeader.resume σ.db (.raise (B.duplicate r)) []), hK, ?_, rfl⟩
    simp only [step, hp, stepProcess] at hs
    rw [hq] at hs hstep
    simp only [hstep] at hs
    by_cases hfree : σ.free pid (B.keyOf r) = true
    · simp only [hfree, if_true] at hs
      cases hs
      exact procs_set_self ..
    · simp [hfree] at hs
  · exact absurd trivial hcancel

/-- A run that ends without any process having been refused a duplicate row has met no
collision. -/
theorem uncollided_of_unrefused {ok : System B C α → Label B C → Prop}
    (hok : ∀ σ l, ok σ l → ¬ l.isCancel) (h : Run program ok σ σ')
    (hend : ∀ pid p r, σ'.procs pid = some p → p.prog ≠ .raise (B.duplicate r)) :
    Run program (fun σ l => ok σ l ∧ ¬ Collides K σ l) σ σ' := by
  induction h using Relation.ReflTransGen.head_induction_on with
  | refl => exact .refl
  | head hstep hrest ih =>
    obtain ⟨l, hl, h⟩ := hstep
    refine .head ⟨l, hl, h, ?_⟩ ih
    intro hcollides
    obtain ⟨r, p, -, hp, hraise⟩ := raised_of_collides hl (hok _ l h) hcollides
    exact hend l.pid p r (procs_of_finished hrest hp (Or.inr ⟨_, hraise⟩)) hraise

/-- A run in which a call is refused a duplicate row has no serial order, if alone no call
is refused one. -/
theorem not_inOrder_of_duplicate {r : B.Row}
    (hnever : ∀ c s spent s' spent',
      ¬ Transacts (program c) s spent (.error (B.duplicate r)) s' spent')
    {pid : ℕ} {p : Process B C α} (hp : σ.procs pid = some p)
    (hraise : p.prog = .raise (B.duplicate r)) (h : InOrder program db spent σ es) :
    pid ∉ es.map Prod.fst := by
  intro hmem
  obtain ⟨e, he, rfl⟩ := List.mem_map.mp hmem
  obtain ⟨q, hq, -, hend⟩ := h.served e he
  obtain rfl := Option.some.inj (hp.symm.trans hq)
  have hresult : e.2.result = .error (B.duplicate r) := by
    rw [hraise] at hend
    cases hr : e.2.result with
    | ok a => simp [hr, Prog.ofResult] at hend
    | error e' =>
      rw [hr] at hend
      cases hend
      rfl
  obtain ⟨s, s', spent₁, spent₂, ht⟩ := h.serial.transacts e.2 (List.mem_map_of_mem he)
  rw [hresult] at ht
  exact hnever _ _ _ _ _ ht

end Order

end System

end RowLocking
