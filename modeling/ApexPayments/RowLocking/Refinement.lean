import ApexPayments.RowLocking.Atomic

/-!
The statement-level system refines the atomic one. A transaction in progress
could have been executed in one piece against the store committed now: the rows
it read under a lock cannot have changed, the keys it inserted cannot have been
taken, and everything else it read was committed since it began.
-/
namespace RowLocking

variable {B : Backend} {C α : Type}

/-- One statement of a transaction, taken against the store `F.hi`. -/
inductive Move (F : Frame B) : Prog B α × Session B → Prog B α × Session B → Prop
  | read (next : B.Store → Prog B α) (L : Session B) (s : B.Store) (hs : F.Reads L s) :
      Move F (.read next, L) (next (view s L.flushed), L.see s)
  | absent (k : B.Key) (next : Option B.Row → Prog B α) (L : Session B) (s : B.Store)
      (hs : F.Reads L s) (hn : B.get (view s L.flushed) k = none) :
      Move F (.lock k next, L) (next none, L.see s)
  | lock (k : B.Key) (next : Option B.Row → Prog B α) (L : Session B) (r : B.Row)
      (hr : B.get (view F.hi L.flushed) k = some r) :
      Move F (.lock k next, L) (next (some r), L.hold k)
  | tryAbsent (k : B.Key) (next : Option B.Row → Prog B α) (L : Session B) (s : B.Store)
      (hs : F.Reads L s) (hn : B.get (view s L.flushed) k = none) :
      Move F (.tryLock k next, L) (next none, L.see s)
  | tryLock (k : B.Key) (next : Option B.Row → Prog B α) (L : Session B) (r : B.Row)
      (hr : B.get (view F.hi L.flushed) k = some r) :
      Move F (.tryLock k next, L) (next (some r), L.hold k)
  | skip (k : B.Key) (next : Option B.Row → Prog B α) (L : Session B) (hk : F.skips k) :
      Move F (.tryLock k next, L) (next none, L)
  | stage (w : Write B) (next : Prog B α) (L : Session B) :
      Move F (.stage w next, L) (next, L.stage w)
  | flushed (next : Prog B α) (L : Session B) (hp : L.pending = []) :
      Move F (.flush next, L) (next, L)
  | execute (next : Prog B α) (L : Session B) (w : Write B) (ws : List (Write B))
      (hp : L.pending = w :: ws) (ha : F.Accepts L.flushed w) :
      Move F (.flush next, L) (.flush next, L.execute w ws)
  | draw (next : B.Ident → Prog B α) (L : Session B) (i : B.Ident)
      (hs : i ∉ F.spent) (hd : i ∉ L.drawn) : Move F (.draw next, L) (next i, L.draw i)
  | ask (q : B.Query) (next : B.Answer q → Prog B α) (L : Session B) (a : B.Answer q) :
      Move F (.ask q next, L) (next a, L)

def Replay (F : Frame B) (base : Prog B α) : Prog B α × Session B → Prop :=
  Relation.ReflTransGen (Move F) (base, Session.fresh B)

theorem mem_addHeld (ks : List B.Key) (k k' : B.Key) :
    k' ∈ addHeld ks k ↔ k' = k ∨ k' ∈ ks := by
  unfold addHeld
  split
  · constructor
    · exact Or.inr
    · rintro (rfl | h) <;> assumption
  · exact List.mem_cons

theorem flushAll_nil (L : Session B) (hp : L.pending = []) : L.flushAll = L := by
  cases L
  subst hp
  simp [Session.flushAll]

theorem flushAll_execute (L : Session B) (w : Write B) (ws : List (Write B))
    (hp : L.pending = w :: ws) : (L.execute w ws).flushAll = L.flushAll := by
  cases L
  subst hp
  simp [Session.flushAll, Session.execute, Session.hold]

/-- A run from the state after one statement is a run from the state before it. -/
theorem runs_of_move {F : Frame B} {p p' : Prog B α} {L L' : Session B} {o : Stop B α}
    (hm : Move F (p, L) (p', L')) (hr : p'.Runs F L' o) : p.Runs F L o := by
  cases hm with
  | read next L s hs => exact ⟨s, hs, hr⟩
  | absent k next L s hs hn => exact Or.inl ⟨s, hs, hn, hr⟩
  | lock k next L r hk => exact Or.inr ⟨r, hk, hr⟩
  | tryAbsent k next L s hs hn => exact Or.inl ⟨s, hs, hn, hr⟩
  | tryLock k next L r hk => exact Or.inr (Or.inl ⟨r, hk, hr⟩)
  | skip k next L hk => exact Or.inr (Or.inr ⟨hk, hr⟩)
  | stage w next L => exact hr
  | flushed p' L hp =>
    refine Or.inl ⟨?_, ?_⟩
    · rw [hp]
      trivial
    · rwa [flushAll_nil L hp]
  | execute next L w ws hp ha =>
    rcases hr with ⟨hf, hr⟩ | ⟨e, L', hf, rfl⟩
    · refine Or.inl ⟨?_, ?_⟩
      · rw [hp]
        exact ⟨ha, hf⟩
      · rwa [flushAll_execute L w ws hp] at hr
    · refine Or.inr ⟨e, L', ?_, rfl⟩
      rw [hp]
      exact Or.inr ⟨ha, hf⟩
  | draw next L i hs hd => exact ⟨i, hs, hd, hr⟩
  | ask q next L a => exact ⟨a, hr⟩

theorem runs_of_replay {F : Frame B} {base p : Prog B α} {L : Session B} {o : Stop B α}
    (h : Replay F base (p, L)) (hr : p.Runs F L o) : base.Runs F (.fresh B) o := by
  have aux : ∀ c c' : Prog B α × Session B, Relation.ReflTransGen (Move F) c c' →
      c'.1.Runs F c'.2 o → c.1.Runs F c.2 o := by
    intro c c' hcc
    induction hcc with
    | refl => exact fun h => h
    | tail _ hm ih => exact fun h => ih (runs_of_move hm h)
  exact aux _ _ h hr

theorem get_view_of_notMem (s : B.Store) (ws : List (Write B)) (k : B.Key)
    (hk : ∀ w ∈ ws, k ≠ w.key) : B.get (view s ws) k = B.get s k := by
  induction ws generalizing s with
  | nil => rfl
  | cons w ws ih =>
    have hne : k ≠ w.key := hk w (by simp)
    change B.get (view (B.put s w.row) ws) k = _
    rw [ih _ fun v hv => hk v (by simp [hv])]
    exact B.get_put_of_ne s w.row k hne

/-- The view of a key depends on the committed store only through that key. -/
theorem get_view_congr {s t : B.Store} {k : B.Key} (h : B.get s k = B.get t k)
    (ws : List (Write B)) : B.get (view s ws) k = B.get (view t ws) k := by
  induction ws generalizing s t with
  | nil => exact h
  | cons w ws ih =>
    apply ih
    by_cases hk : k = B.keyOf w.row
    · rw [hk, B.get_put_self, B.get_put_self]
    · rw [B.get_put_of_ne s w.row k hk, B.get_put_of_ne t w.row k hk, h]

/-- What other transactions may do while this one holds rows and identifiers. -/
structure Frame.Moves (F F' : Frame B) (held : List B.Key) (drawn : List B.Ident) : Prop where
  older : F'.older = F.older
  sees : ∀ s, F.Sees s → F'.Sees s
  rows : ∀ k ∈ held, B.get F'.hi k = B.get F.hi k
  unspent : ∀ i ∈ drawn, i ∉ F'.spent
  skips : F'.skips = F.skips

theorem reads_stable {F F' : Frame B} {held : List B.Key} {drawn : List B.Ident}
    (h : F.Moves F' held drawn) {L : Session B} {s : B.Store} (hs : F.Reads L s) :
    F'.Reads L s := by
  refine ⟨h.sees s hs.1, ?_⟩
  rw [h.older]
  exact hs.2

theorem accepts_stable {F F' : Frame B} {held : List B.Key} {drawn : List B.Ident}
    (h : F.Moves F' held drawn) {fl : List (Write B)} {w : Write B} (hw : w.key ∈ held)
    (ha : F.Accepts fl w) : F'.Accepts fl w := by
  obtain ⟨hn, s, hs, hv⟩ := ha
  refine ⟨?_, s, h.sees s hs, hv⟩
  intro r hr
  subst hr
  rw [get_view_congr (h.rows (B.keyOf r) hw) fl]
  exact hn r rfl

/-- One statement stays a possible statement while its rows are held. -/
theorem move_stable {F F' : Frame B} {c c' : Prog B α × Session B}
    (h : F.Moves F' c'.2.held c'.2.drawn) (hm : Move F c c') : Move F' c c' := by
  cases hm with
  | read next L s hs => exact .read next L s (reads_stable h hs)
  | absent k next L s hs hn => exact .absent k next L s (reads_stable h hs) hn
  | lock k next L r hr =>
    have hk : k ∈ (L.hold k).held := (mem_addHeld _ _ _).mpr (Or.inl rfl)
    refine .lock k next L r ?_
    rw [get_view_congr (h.rows k hk)]
    exact hr
  | tryAbsent k next L s hs hn => exact .tryAbsent k next L s (reads_stable h hs) hn
  | tryLock k next L r hr =>
    have hk : k ∈ (L.hold k).held := (mem_addHeld _ _ _).mpr (Or.inl rfl)
    refine .tryLock k next L r ?_
    rw [get_view_congr (h.rows k hk)]
    exact hr
  | skip k next L hk =>
    rw [← h.skips] at hk
    exact .skip k next L hk
  | stage w next L => exact .stage w next L
  | flushed next L hp => exact .flushed next L hp
  | execute next L w ws hp ha =>
    have hk : w.key ∈ (L.execute w ws).held := (mem_addHeld _ _ _).mpr (Or.inl rfl)
    exact .execute next L w ws hp (accepts_stable h hk ha)
  | draw next L i hs hd =>
    exact .draw next L i (h.unspent i (by simp [Session.draw])) hd
  | ask q next L a => exact .ask q next L a

theorem held_mono {F : Frame B} {c c' : Prog B α × Session B} (hm : Move F c c') :
    (∀ k ∈ c.2.held, k ∈ c'.2.held) ∧ ∀ i ∈ c.2.drawn, i ∈ c'.2.drawn := by
  cases hm with
  | lock k next L r hr =>
    exact ⟨fun k' hk' => (mem_addHeld _ _ _).mpr (Or.inr hk'), fun i hi => hi⟩
  | tryLock k next L r hr =>
    exact ⟨fun k' hk' => (mem_addHeld _ _ _).mpr (Or.inr hk'), fun i hi => hi⟩
  | execute next L w ws hp ha =>
    exact ⟨fun k' hk' => (mem_addHeld _ _ _).mpr (Or.inr hk'), fun i hi => hi⟩
  | draw next L i hs hd => exact ⟨fun k hk => hk, fun j hj => List.mem_cons_of_mem _ hj⟩
  | _ => exact ⟨fun k hk => hk, fun i hi => hi⟩

theorem replay_stable {F F' : Frame B} {base : Prog B α} {c : Prog B α × Session B}
    (hr : Replay F base c) (h : F.Moves F' c.2.held c.2.drawn) : Replay F' base c := by
  induction hr with
  | refl => exact .refl
  | tail _ hm ih =>
    have hmono := held_mono hm
    refine .tail (ih ⟨h.older, h.sees, ?_, ?_, h.skips⟩) (move_stable h hm)
    · exact fun k hk => h.rows k (hmono.1 k hk)
    · exact fun i hi => h.unspent i (hmono.2 i hi)

theorem flushed_held {F : Frame B} {base : Prog B α} {c : Prog B α × Session B}
    (hr : Replay F base c) : ∀ w ∈ c.2.flushed, w.key ∈ c.2.held := by
  induction hr with
  | refl =>
    intro w hw
    simp [Session.fresh] at hw
  | tail _ hm ih =>
    cases hm with
    | lock k next L r hr => exact fun w hw => (mem_addHeld _ _ _).mpr (Or.inr (ih w hw))
    | tryLock k next L r hr => exact fun w hw => (mem_addHeld _ _ _).mpr (Or.inr (ih w hw))
    | execute next L v vs hp ha =>
      intro w hw
      rcases List.mem_append.mp hw with hw | hw
      · exact (mem_addHeld _ _ _).mpr (Or.inr (ih w hw))
      · rw [List.mem_singleton.mp hw]
        exact (mem_addHeld _ _ _).mpr (Or.inl rfl)
    | _ => exact ih

/-- Every statement that was executed met the constraints. -/
theorem accepted_of_replay {F : Frame B} {base : Prog B α} {c : Prog B α × Session B}
    (hr : Replay F base c) :
    ∀ w ∈ c.2.flushed, ∃ s fl, B.violation (view s fl) w.row = none := by
  induction hr with
  | refl =>
    intro w hw
    simp [Session.fresh] at hw
  | tail _ hm ih =>
    cases hm with
    | execute next L v vs hp ha =>
      intro w hw
      rcases List.mem_append.mp hw with hw | hw
      · exact ih w hw
      · obtain ⟨-, s, -, hv⟩ := ha
        rw [List.mem_singleton.mp hw]
        exact ⟨s, L.flushed, hv⟩
    | _ => exact ih

/-- What is in the store stays there under further statements. -/
theorem get_of_get_view {s : B.Store} {ws : List (Write B)} {k : B.Key}
    (h : B.get (view s ws) k = none) : B.get s k = none := by
  induction ws generalizing s with
  | nil => exact h
  | cons w ws ih =>
    have hput : B.get (B.put s w.row) k = none := ih h
    by_cases hk : k = B.keyOf w.row
    · rw [hk, B.get_put_self] at hput
      contradiction
    · rw [B.get_put_of_ne s w.row k hk] at hput
      exact hput

/-- A row of the view was there before or has been written. -/
theorem get_view_cases {s : B.Store} {ws : List (Write B)} {k : B.Key} {r : B.Row}
    (h : B.get (view s ws) k = some r) : B.get s k = some r ∨ ∃ w ∈ ws, w.row = r := by
  induction ws generalizing s with
  | nil => exact Or.inl h
  | cons w ws ih =>
    have hput : B.get (B.put s w.row) k = some r ∨ ∃ v ∈ ws, v.row = r := ih h
    rcases hput with hput | ⟨v, hv, hrow⟩
    · by_cases hk : k = B.keyOf w.row
      · rw [hk, B.get_put_self] at hput
        exact Or.inr ⟨w, List.mem_cons_self .., Option.some.inj hput⟩
      · rw [B.get_put_of_ne s w.row k hk] at hput
        exact Or.inl hput
    · exact Or.inr ⟨v, List.mem_cons_of_mem _ hv, hrow⟩

/-- A row that was inserted is not committed yet. -/
theorem absent_of_replay {F : Frame B} {base : Prog B α} {c : Prog B α × Session B}
    (hr : Replay F base c) {r : B.Row} (hmem : .insert r ∈ c.2.flushed) :
    B.get F.hi (B.keyOf r) = none := by
  induction hr with
  | refl => simp [Session.fresh] at hmem
  | tail _ hm ih =>
    cases hm with
    | execute next L v vs hp ha =>
      rcases List.mem_append.mp hmem with hmem | hmem
      · exact ih hmem
      · exact get_of_get_view (ha.1 r (List.mem_singleton.mp hmem).symm)
    | _ => exact ih hmem

theorem snapshots_seen {F : Frame B} {base : Prog B α} {c : Prog B α × Session B}
    (hr : Replay F base c) : ∀ t ∈ c.2.snapshots, F.Sees t := by
  induction hr with
  | refl =>
    intro t ht
    simp [Session.fresh] at ht
  | tail _ hm ih =>
    cases hm with
    | read next L s hs =>
      intro t ht
      rcases List.mem_cons.mp ht with rfl | ht
      · exact hs.1
      · exact ih t ht
    | absent k next L s hs hn | tryAbsent k next L s hs hn =>
      intro t ht
      rcases List.mem_cons.mp ht with rfl | ht
      · exact hs.1
      · exact ih t ht
    | _ => exact ih

section LocalStep

variable {s : B.Store} {free : B.Key → Bool} {issued : List B.Ident} {o : Oracle B}
variable {p p' : Prog B α} {L L' : Session B}

/-- A statement that executes is a move; one that the store refuses raises. -/
theorem localStep_cases {F : Frame B} (hhi : F.hi = s) (hreads : F.Reads L s)
    (hspent : ∀ i ∈ F.spent, i ∈ issued) (hdrawn : ∀ i ∈ L.drawn, i ∈ issued)
    (hskips : ∀ k next r, p = .tryLock k next → B.get (view s L.flushed) k = some r →
      free k = false → F.skips k)
    (h : localStep s free issued o p L = some (p', L')) :
    Move F (p, L) (p', L') ∨
      ∃ next e, p = .flush next ∧ p' = .raise e ∧ F.FlushFails e L.flushed L.pending := by
  subst hhi
  cases p with
  | read next =>
    cases h
    exact Or.inl (.read next L F.hi hreads)
  | lock k next =>
    simp only [localStep] at h
    split at h
    · rename_i hn
      cases h
      exact Or.inl (.absent k next L F.hi hreads hn)
    · rename_i r hr
      split at h
      · cases h
        exact Or.inl (.lock k next L r hr)
      · contradiction
  | tryLock k next =>
    simp only [localStep] at h
    split at h
    · rename_i hn
      cases h
      exact Or.inl (.tryAbsent k next L F.hi hreads hn)
    · rename_i r hr
      split at h
      · cases h
        exact Or.inl (.tryLock k next L r hr)
      · rename_i hf
        cases h
        exact Or.inl (.skip k next L (hskips k next r rfl hr (Bool.eq_false_iff.mpr hf)))
  | stage w next =>
    cases h
    exact Or.inl (.stage w _ L)
  | flush next =>
    simp only [localStep] at h
    split at h
    · rename_i hp
      cases h
      exact Or.inl (.flushed _ L hp)
    · rename_i w ws hp
      split at h
      · split at h
        · rename_i e he
          cases h
          refine Or.inr ⟨_, e, rfl, rfl, ?_⟩
          rw [hp]
          exact Or.inl he
        · rename_i he
          cases h
          refine Or.inl (.execute next L w ws hp ⟨?_, F.hi, hreads.1, ?_⟩)
          · intro r hr
            subst hr
            by_contra hne
            simp [Write.rejected, Option.isSome_iff_ne_none.mpr hne] at he
          · cases w with
            | insert r =>
              simp only [Write.rejected] at he
              split at he
              · contradiction
              · exact he
            | update r => exact he
      · contradiction
  | draw next =>
    simp only [localStep] at h
    split at h
    · contradiction
    · rename_i hi
      cases h
      exact Or.inl (.draw next L o.ident (fun hs => hi (hspent _ hs)) fun hd => hi (hdrawn _ hd))
  | ask q next =>
    cases h
    exact Or.inl (.ask q next L (o.answer q))
  | pure a => contradiction
  | raise e => contradiction
  | call q next => contradiction
  | commit next => contradiction

theorem localStep_held (h : localStep s free issued o p L = some (p', L')) :
    ∀ k ∈ L'.held, k ∈ L.held ∨ free k = true := by
  cases p with
  | lock k next =>
    simp only [localStep] at h
    split at h
    · cases h
      exact fun k hk => Or.inl hk
    · split at h
      · rename_i hf
        cases h
        intro k' hk'
        rcases (mem_addHeld _ _ _).mp hk' with rfl | hk'
        · exact Or.inr hf
        · exact Or.inl hk'
      · contradiction
  | tryLock k next =>
    simp only [localStep] at h
    split at h
    · cases h
      exact fun k hk => Or.inl hk
    · split at h
      · rename_i hf
        cases h
        intro k' hk'
        rcases (mem_addHeld _ _ _).mp hk' with rfl | hk'
        · exact Or.inr hf
        · exact Or.inl hk'
      · cases h
        exact fun k hk => Or.inl hk
  | flush next =>
    simp only [localStep] at h
    split at h
    · cases h
      exact fun k hk => Or.inl hk
    · split at h
      · rename_i hf
        split at h
        · cases h
          exact fun k hk => Or.inl hk
        · cases h
          intro k' hk'
          rcases (mem_addHeld _ _ _).mp hk' with rfl | hk'
          · exact Or.inr hf
          · exact Or.inl hk'
      · contradiction
  | draw next =>
    simp only [localStep] at h
    split at h
    · contradiction
    · cases h
      exact fun k hk => Or.inl hk
  | read next | stage w next | ask q next =>
    cases h
    exact fun k hk => Or.inl hk
  | pure a => contradiction
  | raise e => contradiction
  | call q next => contradiction
  | commit next => contradiction

/-- A statement keeps the locks, and only staging adds to what is written. -/
theorem localStep_writes (h : localStep s free issued o p L = some (p', L')) :
    (∀ k ∈ L.held, k ∈ L'.held) ∧ (L'.flushed ++ L'.pending = L.flushed ++ L.pending ∨
      ∃ w next, p = .stage w next ∧ L' = L.stage w) := by
  cases p with
  | pure a | raise e | call q next | commit next => contradiction
  | read next | ask q next =>
    cases h
    exact ⟨fun _ hk => hk, Or.inl rfl⟩
  | stage w next =>
    cases h
    exact ⟨fun _ hk => hk, Or.inr ⟨w, _, rfl, rfl⟩⟩
  | lock k next =>
    simp only [localStep] at h
    split at h
    · cases h
      exact ⟨fun _ hk => hk, Or.inl rfl⟩
    · split at h
      · cases h
        exact ⟨fun _ hk => (mem_addHeld _ _ _).mpr (Or.inr hk), Or.inl rfl⟩
      · contradiction
  | tryLock k next =>
    simp only [localStep] at h
    split at h
    · cases h
      exact ⟨fun _ hk => hk, Or.inl rfl⟩
    · split at h
      · cases h
        exact ⟨fun _ hk => (mem_addHeld _ _ _).mpr (Or.inr hk), Or.inl rfl⟩
      · cases h
        exact ⟨fun _ hk => hk, Or.inl rfl⟩
  | flush next =>
    simp only [localStep] at h
    split at h
    · cases h
      exact ⟨fun _ hk => hk, Or.inl rfl⟩
    · rename_i w ws hpending
      split at h
      · split at h
        · cases h
          exact ⟨fun _ hk => hk, Or.inl rfl⟩
        · cases h
          refine ⟨fun _ hk => (mem_addHeld _ _ _).mpr (Or.inr hk), Or.inl ?_⟩
          simp [Session.execute, hpending]
      · contradiction
  | draw next =>
    simp only [localStep] at h
    split at h
    · contradiction
    · cases h
      exact ⟨fun _ hk => hk, Or.inl rfl⟩

theorem localStep_drawn (h : localStep s free issued o p L = some (p', L')) :
    ∀ i ∈ L'.drawn, i ∈ L.drawn ∨ i ∉ issued ∧ i = o.ident ∧ ∃ next, p = .draw next := by
  cases p with
  | lock k next =>
    simp only [localStep] at h
    split at h
    · cases h
      exact fun i hi => Or.inl hi
    · split at h
      · cases h
        exact fun i hi => Or.inl hi
      · contradiction
  | tryLock k next =>
    simp only [localStep] at h
    split at h
    · cases h
      exact fun i hi => Or.inl hi
    · split at h <;> (cases h; exact fun i hi => Or.inl hi)
  | flush next =>
    simp only [localStep] at h
    split at h
    · cases h
      exact fun i hi => Or.inl hi
    · split at h
      · split at h <;> (cases h; exact fun i hi => Or.inl hi)
      · contradiction
  | draw next =>
    simp only [localStep] at h
    split at h
    · contradiction
    · rename_i hi
      cases h
      intro j hj
      rcases List.mem_cons.mp hj with rfl | hj
      · exact Or.inr ⟨hi, rfl, next, rfl⟩
      · exact Or.inl hj
  | read next | stage w next | ask q next =>
    cases h
    exact fun i hi => Or.inl hi
  | pure a => contradiction
  | raise e => contradiction
  | call q next => contradiction
  | commit next => contradiction

end LocalStep

namespace System

variable {program : C → Prog B α} {older : B.Store → B.Store → Prop} {skips : B.Key → Prop}

def toAtomic (σ : System B C α) : Atomic B C α :=
  ⟨σ.db, σ.spent, fun pid => (σ.procs pid).map Process.toHeader⟩

/-- The next statement of a process would pass over the row `k`, which is held. -/
def Skips (σ : System B C α) (pid : ℕ) (k : B.Key) : Prop :=
  ∃ p next r, σ.procs pid = some p ∧ p.prog = .tryLock k next ∧
    B.get (view σ.db p.session.flushed) k = some r ∧ σ.free pid k = false

/-- The statement that a step executes passes over no rows but those in `skips`. -/
def SkipsOnly (skips : B.Key → Prop) (σ : System B C α) (l : Label B C) : Prop :=
  ∀ pid o k, l = .run pid o → σ.Skips pid k → skips k

theorem SkipsOnly.passes {skips : B.Key → Prop} {σ : System B C α} {pid : ℕ} {o : Oracle B}
    {p : Process B C α} (hk : SkipsOnly skips σ (.run pid o)) (hp : σ.procs pid = some p) :
    ∀ k next r, p.prog = .tryLock k next → B.get (view σ.db p.session.flushed) k = some r →
      σ.free pid k = false → skips k :=
  fun k next r hq hr hf => hk pid o k rfl ⟨p, next, r, hp, hq, hr, hf⟩

/-- What one step does, by the rule of `step` that fired, and the act that it ends. -/
inductive Stepped (program : C → Prog B α) (σ : System B C α) :
    Label B C → Option (Atomic.Act B C) → System B C α → Prop
  | start (pid : ℕ) (c : C) (hp : σ.procs pid = none) :
      Stepped program σ (.start pid c) (some (.start pid c))
        (σ.set pid (.atBoundary ⟨c, σ.db, program c, []⟩))
  | cancel (pid : ℕ) (p : Process B C α) (hp : σ.procs pid = some p)
      (hv : ∀ v, p.prog ≠ .pure v) (he : ∀ e, p.prog ≠ .raise e) :
      Stepped program σ (.cancel pid) (some (.fail pid B.cancelled)) (σ.abort pid p B.cancelled)
  | call (pid : ℕ) (o : Oracle B) (p : Process B C α) (q : B.Query)
      (next : B.Answer q → Prog B α) (hp : σ.procs pid = some p) (hq : p.prog = .call q next)
      (hL : p.session.flushed = [] ∧ p.session.pending = [] ∧ p.session.held = [] ∧
        p.session.drawn = []) :
      Stepped program σ (.run pid o) (some (.call pid q (o.answer q))) (σ.set pid (.atBoundary
        (p.toHeader.resume σ.db (next (o.answer q)) [.answered q (o.answer q)])))
  | commit (pid : ℕ) (o : Oracle B) (p : Process B C α) (next : Prog B α)
      (hp : σ.procs pid = some p) (hq : p.prog = .commit next) (hL : p.session.pending = [])
      (hd : B.deferred (view σ.db p.session.flushed)
        (p.session.flushed.filterMap Write.inserted) = none) :
      Stepped program σ (.run pid o) (some (.commit pid p.session)) (σ.commit pid p next)
  | deferred (pid : ℕ) (o : Oracle B) (p : Process B C α) (next : Prog B α) (e : B.Error)
      (hp : σ.procs pid = some p) (hq : p.prog = .commit next) (hL : p.session.pending = [])
      (hd : B.deferred (view σ.db p.session.flushed)
        (p.session.flushed.filterMap Write.inserted) = some e) :
      Stepped program σ (.run pid o) (some (.fail pid e)) (σ.abort pid p e)
  | refused (pid : ℕ) (o : Oracle B) (p : Process B C α) (e : B.Error) (L : Session B)
      (hp : σ.procs pid = some p)
      (hl : localStep σ.db (σ.free pid) σ.issued o p.prog p.session = some (.raise e, L)) :
      Stepped program σ (.run pid o) (some (.fail pid e)) (σ.abort pid p e)
  | advance (pid : ℕ) (o : Oracle B) (p : Process B C α) (prog : Prog B α) (L : Session B)
      (issued : List B.Ident) (hp : σ.procs pid = some p) (he : ∀ e, prog ≠ .raise e)
      (hl : localStep σ.db (σ.free pid) σ.issued o p.prog p.session = some (prog, L))
      (hi : issued = match p.prog with
        | .draw _ => o.ident :: σ.issued
        | _ => σ.issued) :
      Stepped program σ (.run pid o) none
        { σ.set pid { p with prog := prog, session := L } with issued := issued }

theorem stepped_of_stepProcess {σ σ' : System B C α} {pid : ℕ} {o : Oracle B}
    {p : Process B C α} (hp : σ.procs pid = some p) (h : σ.stepProcess o pid p = some σ') :
    ∃ act, Stepped program σ (.run pid o) act σ' := by
  unfold stepProcess at h
  split at h
  · contradiction
  · contradiction
  · rename_i q next hq
    split at h
    · rename_i hL
      simp only [List.isEmpty_iff] at hL
      cases h
      exact ⟨_, .call pid o p q next hp hq hL⟩
    · contradiction
  · rename_i next hq
    split at h
    · rename_i hL
      rw [List.isEmpty_iff] at hL
      split at h
      · rename_i e hd
        cases h
        exact ⟨_, .deferred pid o p next e hp hq hL hd⟩
      · rename_i hd
        cases h
        exact ⟨_, .commit pid o p next hp hq hL hd⟩
    · contradiction
  · split at h
    · contradiction
    · rename_i e L hl
      cases h
      exact ⟨_, .refused pid o p e L hp hl⟩
    · rename_i prog L hne hl
      cases h
      exact ⟨_, .advance pid o p prog L _ hp hne hl rfl⟩

theorem stepped_of_step {σ σ' : System B C α} {l : Label B C}
    (h : σ.step program l = some σ') : ∃ act, Stepped program σ l act σ' := by
  cases l with
  | start pid c =>
    simp only [step] at h
    split at h
    · contradiction
    · rename_i hp
      cases h
      exact ⟨_, .start pid c hp⟩
  | run pid o =>
    simp only [step] at h
    split at h
    · rename_i p hp
      exact stepped_of_stepProcess hp h
    · contradiction
  | cancel pid =>
    simp only [step] at h
    split at h
    · rename_i p hp
      split at h
      · contradiction
      · contradiction
      · rename_i hv he
        cases h
        exact ⟨_, .cancel pid p hp hv he⟩
    · contradiction

theorem Run.mono {ok ok' : System B C α → Label B C → Prop} {σ σ' : System B C α}
    (h : Run program ok σ σ') (hok : ∀ σ l, ok σ l → ok' σ l) : Run program ok' σ σ' := by
  induction h with
  | refl => exact .refl
  | tail _ hstep ih =>
    obtain ⟨l, hl, h⟩ := hstep
    exact ih.tail ⟨l, hl, hok _ l h⟩

theorem procs_set_self (σ : System B C α) (pid : ℕ) (p : Process B C α) :
    (σ.set pid p).procs pid = some p := Function.update_self ..

/-- A step of one process leaves the others alone. -/
theorem Stepped.procs_of_ne {σ σ' : System B C α} {l : Label B C} {act : Option (Atomic.Act B C)}
    (h : Stepped program σ l act σ') {pid : ℕ} (hne : pid ≠ l.pid) :
    σ'.procs pid = σ.procs pid := by
  cases h <;> exact Function.update_of_ne hne _ _

/-- A process that has ended takes no more steps. -/
theorem Stepped.ne_of_finished {σ σ' : System B C α} {l : Label B C}
    {act : Option (Atomic.Act B C)} (h : Stepped program σ l act σ') {pid : ℕ}
    {p : Process B C α} (hp : σ.procs pid = some p) (hf : p.Finished) : pid ≠ l.pid := by
  rintro rfl
  have hend : (∃ v, p.prog = .pure v) ∨ ∃ e, p.prog = .raise e := hf
  cases h with
  | start pid c hnone =>
    rw [Label.pid, hnone] at hp
    contradiction
  | cancel pid q hq hv he =>
    obtain rfl : p = q := Option.some.inj (hp.symm.trans hq)
    rcases hend with ⟨v, h⟩ | ⟨e, h⟩
    · exact hv v h
    · exact he e h
  | call pid o q query next hq hprog hL | commit pid o q next hq hprog hL hd
  | deferred pid o q next e hq hprog hL hd =>
    obtain rfl : p = q := Option.some.inj (hp.symm.trans hq)
    rw [hprog] at hend
    rcases hend with ⟨v, h⟩ | ⟨e, h⟩ <;> contradiction
  | refused pid o q e L hq hl | advance pid o q prog L issued hq he hl hi =>
    obtain rfl : p = q := Option.some.inj (hp.symm.trans hq)
    rcases hend with ⟨v, h⟩ | ⟨e, h⟩ <;> rw [h] at hl <;> contradiction

theorem procs_of_finished {ok : System B C α → Label B C → Prop} {σ σ' : System B C α}
    (h : Run program ok σ σ') {pid : ℕ} {p : Process B C α} (hp : σ.procs pid = some p)
    (hf : p.Finished) : σ'.procs pid = some p := by
  induction h with
  | refl => exact hp
  | tail _ hstep ih =>
    obtain ⟨l, hl, -⟩ := hstep
    obtain ⟨act, hs⟩ := stepped_of_step hl
    exact (hs.procs_of_ne (hs.ne_of_finished ih hf)).trans ih

theorem procs_of_exec {ls : List (Label B C)} {σ σ' : System B C α} {pid : ℕ}
    (h : exec program ls σ = some σ') (hne : ∀ l ∈ ls, pid ≠ l.pid) :
    σ'.procs pid = σ.procs pid := by
  induction ls generalizing σ with
  | nil =>
    cases h
    rfl
  | cons l ls ih =>
    obtain ⟨σ₁, hstep, hrest⟩ := Option.bind_eq_some_iff.mp h
    obtain ⟨act, hs⟩ := stepped_of_step hstep
    have hlater := ih hrest fun l' hl' => hne l' (List.mem_cons_of_mem _ hl')
    exact hlater.trans (hs.procs_of_ne (hne l (List.mem_cons_self ..)))

/-- A process could have executed its open transaction in one piece. -/
structure Replayed (older : B.Store → B.Store → Prop) (skips : B.Key → Prop) (db : B.Store)
    (spent issued : List B.Ident) (p : Process B C α) : Prop where
  window : older p.since db
  replay : Replay ⟨older, p.since, db, spent, skips⟩ p.base (p.prog, p.session)
  drawn : ∀ i ∈ p.session.drawn, i ∈ issued ∧ i ∉ spent
  raised : ∀ e, p.prog = .raise e → p.base = .raise e

structure Sound (older : B.Store → B.Store → Prop) (skips : B.Key → Prop) (σ : System B C α) :
    Prop where
  locks : ∀ k pid, (k, pid) ∈ σ.locks ↔ ∃ p, σ.procs pid = some p ∧ k ∈ p.session.held
  rows_once : ∀ pid pid' p p', σ.procs pid = some p → σ.procs pid' = some p' →
    ∀ k ∈ p.session.held, k ∈ p'.session.held → pid = pid'
  idents_once : ∀ pid pid' p p', σ.procs pid = some p → σ.procs pid' = some p' →
    ∀ i ∈ p.session.drawn, i ∈ p'.session.drawn → pid = pid'
  spent_issued : ∀ i ∈ σ.spent, i ∈ σ.issued
  replayed : ∀ pid p, σ.procs pid = some p → Replayed older skips σ.db σ.spent σ.issued p

theorem free_iff (σ : System B C α) (pid : ℕ) (k : B.Key) :
    σ.free pid k = true ↔ ∀ pid', (k, pid') ∈ σ.locks → pid' = pid := by
  simp only [free, List.all_eq_true, decide_eq_true_eq]
  constructor
  · intro h pid' hm
    rcases h _ hm with hne | he
    · exact absurd rfl hne
    · exact he
  · intro h e he
    by_cases hk : e.1 = k
    · subst hk
      exact Or.inr (h e.2 he)
    · exact Or.inl hk

/-- A row that a process holds is free for it. -/
theorem Sound.free_of_held {σ : System B C α} (h : Sound older skips σ) {pid : ℕ}
    {p : Process B C α} (hp : σ.procs pid = some p) {k : B.Key} (hk : k ∈ p.session.held) :
    σ.free pid k = true := by
  rw [free_iff]
  intro pid' hlock
  obtain ⟨q, hq, hk'⟩ := (h.locks k pid').mp hlock
  exact h.rows_once pid' pid q p hq hp k hk' hk

theorem Sound.locked_of_held {σ : System B C α} (h : Sound older skips σ) {pid pid' : ℕ}
    {p : Process B C α} (hp : σ.procs pid' = some p) {k : B.Key} (hk : k ∈ p.session.held)
    (hne : pid' ≠ pid) : σ.free pid k = false := by
  rw [← Bool.not_eq_true, free_iff]
  intro hall
  exact hne (hall pid' ((h.locks k pid').mpr ⟨p, hp, hk⟩))

/-- A row that is not free is held by another process. -/
theorem Sound.held_of_locked {σ : System B C α} (h : Sound older skips σ) {pid : ℕ} {k : B.Key}
    (hk : σ.free pid k = false) :
    ∃ pid' p, pid' ≠ pid ∧ σ.procs pid' = some p ∧ k ∈ p.session.held := by
  have hfree : ¬ ∀ pid', (k, pid') ∈ σ.locks → pid' = pid := by
    rw [← free_iff, hk]
    exact Bool.false_ne_true
  obtain ⟨pid', hnot⟩ := not_forall.mp hfree
  obtain ⟨hlock, hne⟩ := Classical.not_imp.mp hnot
  obtain ⟨p, hp, hheld⟩ := (h.locks k pid').mp hlock
  exact ⟨pid', p, hne, hp, hheld⟩

section Soundness

variable (hrefl : ∀ s, older s s) (htrans : ∀ s t u, older s t → older t u → older s u)

include hrefl in
theorem replayed_atBoundary (h : Header B C α) (db : B.Store) (spent issued : List B.Ident)
    (hs : h.since = db) : Replayed older skips db spent issued (.atBoundary h) := by
  subst hs
  refine ⟨hrefl _, .refl, ?_, fun e he => he⟩
  intro i hi
  simp [Process.atBoundary, Session.fresh] at hi

include htrans in
/-- A transaction in progress survives what others commit, away from its rows. -/
theorem Replayed.moves {db db' : B.Store} {spent spent' issued issued' : List B.Ident}
    {p : Process B C α} (h : Replayed older skips db spent issued p) (ho : older db db')
    (hrows : ∀ k ∈ p.session.held, B.get db' k = B.get db k)
    (hspent : ∀ i ∈ p.session.drawn, i ∉ spent') (hissued : ∀ i ∈ issued, i ∈ issued') :
    Replayed older skips db' spent' issued' p := by
  have hsees : ∀ s, older p.since s ∧ older s db → older p.since s ∧ older s db' :=
    fun s hs => ⟨hs.1, htrans _ _ _ hs.2 ho⟩
  refine ⟨htrans _ _ _ h.window ho, replay_stable h.replay ⟨rfl, hsees, hrows, hspent, rfl⟩, ?_,
    h.raised⟩
  · intro i hi
    exact ⟨hissued i (h.drawn i hi).1, hspent i hi⟩

/-- A process changes; the others keep their rows and identifiers. -/
theorem Sound.set {σ σ' : System B C α} {p : Process B C α} (pid : ℕ) (h : Sound older skips σ)
    (hprocs : σ'.procs = Function.update σ.procs pid (some p))
    (hlocks : σ'.locks = p.session.held.map (·, pid) ++ σ.locks.filter (·.2 ≠ pid))
    (hspent : ∀ i ∈ σ'.spent, i ∈ σ'.issued)
    (hrows : ∀ pid' q, pid' ≠ pid → σ.procs pid' = some q →
      ∀ k ∈ p.session.held, k ∉ q.session.held)
    (hidents : ∀ pid' q, pid' ≠ pid → σ.procs pid' = some q →
      ∀ i ∈ p.session.drawn, i ∉ q.session.drawn)
    (hself : Replayed older skips σ'.db σ'.spent σ'.issued p)
    (hothers : ∀ pid' q, pid' ≠ pid → σ.procs pid' = some q →
      Replayed older skips σ'.db σ'.spent σ'.issued q) : Sound older skips σ' := by
  have hother : ∀ pid', pid' ≠ pid → σ'.procs pid' = σ.procs pid' := by
    intro pid' hne
    rw [hprocs, Function.update_of_ne hne]
  have hown : σ'.procs pid = some p := by rw [hprocs, Function.update_self]
  refine ⟨?_, ?_, ?_, hspent, ?_⟩
  · intro k pid'
    rw [hlocks, List.mem_append, List.mem_map, List.mem_filter]
    by_cases hne : pid' = pid
    · subst hne
      rw [hown]
      simp
    · rw [hother pid' hne, ← h.locks k pid']
      simp [hne, Ne.symm hne]
  · intro pid₁ pid₂ p₁ p₂ h₁ h₂ k hk₁ hk₂
    by_cases e₁ : pid₁ = pid <;> by_cases e₂ : pid₂ = pid
    · rw [e₁, e₂]
    · subst e₁
      rw [hown] at h₁
      cases h₁
      rw [hother pid₂ e₂] at h₂
      exact absurd hk₂ (hrows pid₂ p₂ e₂ h₂ k hk₁)
    · subst e₂
      rw [hown] at h₂
      cases h₂
      rw [hother pid₁ e₁] at h₁
      exact absurd hk₁ (hrows pid₁ p₁ e₁ h₁ k hk₂)
    · rw [hother pid₁ e₁] at h₁
      rw [hother pid₂ e₂] at h₂
      exact h.rows_once pid₁ pid₂ p₁ p₂ h₁ h₂ k hk₁ hk₂
  · intro pid₁ pid₂ p₁ p₂ h₁ h₂ i hi₁ hi₂
    by_cases e₁ : pid₁ = pid <;> by_cases e₂ : pid₂ = pid
    · rw [e₁, e₂]
    · subst e₁
      rw [hown] at h₁
      cases h₁
      rw [hother pid₂ e₂] at h₂
      exact absurd hi₂ (hidents pid₂ p₂ e₂ h₂ i hi₁)
    · subst e₂
      rw [hown] at h₂
      cases h₂
      rw [hother pid₁ e₁] at h₁
      exact absurd hi₁ (hidents pid₁ p₁ e₁ h₁ i hi₂)
    · rw [hother pid₁ e₁] at h₁
      rw [hother pid₂ e₂] at h₂
      exact h.idents_once pid₁ pid₂ p₁ p₂ h₁ h₂ i hi₁ hi₂
  · intro pid' q hq
    by_cases hne : pid' = pid
    · subst hne
      rw [hown] at hq
      cases hq
      exact hself
    · rw [hother pid' hne] at hq
      exact hothers pid' q hne hq

include hrefl in
/-- The store committed now can be read after everything read so far. -/
theorem Replayed.reads {db : B.Store} {spent issued : List B.Ident} {p : Process B C α}
    (h : Replayed older skips db spent issued p) :
    Frame.Reads ⟨older, p.since, db, spent, skips⟩ p.session db :=
  ⟨⟨h.window, hrefl _⟩, fun t ht => (snapshots_seen h.replay t ht).2⟩

include hrefl in
/-- Ending the open transaction without writing keeps the others as they were. -/
theorem Sound.boundary {σ : System B C α} (h : Sound older skips σ) (pid : ℕ) (hd : Header B C α)
    (hs : hd.since = σ.db) : Sound older skips (σ.set pid (.atBoundary hd)) := by
  refine Sound.set pid h rfl rfl h.spent_issued ?_ ?_ ?_ ?_
  · intro _ _ _ _ k hk
    simp [Process.atBoundary, Session.fresh] at hk
  · intro _ _ _ _ i hi
    simp [Process.atBoundary, Session.fresh] at hi
  · exact replayed_atBoundary hrefl hd _ _ _ hs
  · exact fun pid' q _ hq => h.replayed pid' q hq

/-- Nobody else changes a row that a process holds. -/
theorem get_of_held {σ σ' : System B C α} {l : Label B C} {act : Option (Atomic.Act B C)}
    (h : Sound older skips σ) (hs : Stepped program σ l act σ') {pid : ℕ} {p : Process B C α}
    (hp : σ.procs pid = some p) (hne : pid ≠ l.pid) {k : B.Key} (hk : k ∈ p.session.held) :
    B.get σ'.db k = B.get σ.db k := by
  cases hs with
  | commit pid' o q next hq hprog hL hd =>
    refine get_view_of_notMem σ.db _ k ?_
    rintro w hw rfl
    exact hne (h.rows_once pid pid' p q hp hq _ hk (flushed_held (h.replayed pid' q hq).replay w hw))
  | _ => rfl

include hrefl htrans in
/-- One step keeps a process replayed, its own or that of another process. The other
processes need not be replayed in the same sense. -/
theorem Replayed.step {older₀ : B.Store → B.Store → Prop} {skips₀ : B.Key → Prop}
    {σ σ' : System B C α} {l : Label B C} {act : Option (Atomic.Act B C)}
    (h : Sound older₀ skips₀ σ) (hs : Stepped program σ l act σ') {pid : ℕ}
    (hk : pid = l.pid → SkipsOnly skips σ l) (ho : older σ.db σ'.db)
    (hself : ∀ p, σ.procs pid = some p → Replayed older skips σ.db σ.spent σ.issued p) :
    ∀ p, σ'.procs pid = some p → Replayed older skips σ'.db σ'.spent σ'.issued p := by
  intro q hq
  by_cases hpid : pid = l.pid
  · subst hpid
    cases hs with
    | start pid c hp | cancel pid p hp hv he | call pid o p query next hp hprog hL
    | deferred pid o p next e hp hprog hL hd | refused pid o p e L hp hl =>
      obtain rfl := Option.some.inj ((procs_set_self σ pid _).symm.trans hq)
      exact replayed_atBoundary hrefl _ _ _ _ rfl
    | commit pid o p next hp hprog hL hd =>
      obtain rfl := Option.some.inj ((procs_set_self σ pid _).symm.trans hq)
      exact replayed_atBoundary hrefl _ _ _ _ rfl
    | advance pid o p prog L issued hp he hl hi =>
      obtain rfl := Option.some.inj ((procs_set_self σ pid _).symm.trans hq)
      have hr := hself p hp
      refine ⟨hr.window, ?_, ?_, fun e hraise => absurd hraise (he e)⟩
      · rcases localStep_cases (F := ⟨older, p.since, σ.db, σ.spent, skips⟩) rfl (hr.reads hrefl)
          h.spent_issued (fun i hm => (hr.drawn i hm).1) (SkipsOnly.passes (hk rfl) hp) hl with
          hm | ⟨next, e, _, hraise, _⟩
        · exact hr.replay.tail hm
        · exact absurd hraise (he e)
      · intro i hm
        rcases localStep_drawn hl i hm with hm | ⟨hn, heq, next, hdraw⟩
        · refine ⟨?_, (hr.drawn i hm).2⟩
          rw [hi]
          split
          · exact List.mem_cons_of_mem _ (hr.drawn i hm).1
          · exact (hr.drawn i hm).1
        · refine ⟨?_, fun hs => hn (h.spent_issued i hs)⟩
          rw [hi, hdraw, heq]
          exact List.mem_cons_self ..
  · rw [hs.procs_of_ne hpid] at hq
    have hr := hself q hq
    have hrows : ∀ k ∈ q.session.held, B.get σ'.db k = B.get σ.db k := fun _ hk =>
      get_of_held h hs hq hpid hk
    cases hs with
    | start pid' c hp | cancel pid' p hp hv he | call pid' o p query next hp hprog hL
    | deferred pid' o p next e hp hprog hL hd | refused pid' o p e L hp hl => exact hr
    | commit pid' o p next hp hprog hL hd =>
      refine hr.moves htrans ho hrows ?_ fun i hi => hi
      intro i hi hm
      rcases List.mem_append.mp hm with hm | hm
      · exact hpid (h.idents_once pid pid' q p hq hp i hi hm)
      · exact (hr.drawn i hi).2 hm
    | advance pid' o p prog L issued hp he hl hi =>
      refine hr.moves htrans (hrefl _) (fun _ _ => rfl) (fun i hi' => (hr.drawn i hi').2) ?_
      intro i hm
      change i ∈ issued
      rw [hi]
      split
      · exact List.mem_cons_of_mem _ hm
      · exact hm

include hrefl htrans in
theorem sound_of_stepped {σ σ' : System B C α} {l : Label B C} {act : Option (Atomic.Act B C)}
    (h : Sound older skips σ) (hs : Stepped program σ l act σ') (hk : SkipsOnly skips σ l)
    (ho : older σ.db σ'.db) : Sound older skips σ' := by
  have hreplayed : ∀ pid p, σ'.procs pid = some p →
      Replayed older skips σ'.db σ'.spent σ'.issued p := fun pid =>
    Replayed.step hrefl htrans h hs (fun _ => hk) ho (h.replayed pid)
  cases hs with
  | start pid c hp => exact h.boundary hrefl pid _ rfl
  | cancel pid p hp hv he => exact h.boundary hrefl pid _ rfl
  | call pid o p q next hp hq hL => exact h.boundary hrefl pid _ rfl
  | deferred pid o p next e hp hq hL hd => exact h.boundary hrefl pid _ rfl
  | refused pid o p e L hp hl => exact h.boundary hrefl pid _ rfl
  | commit pid o p next hp hq hL hd =>
    have hr := h.replayed pid p hp
    refine Sound.set pid h rfl rfl ?_ ?_ ?_ (hreplayed pid _ (procs_set_self σ pid _)) ?_
    · intro i hi
      rcases List.mem_append.mp hi with hi | hi
      · exact (hr.drawn i hi).1
      · exact h.spent_issued i hi
    · intro _ _ _ _ k hk
      simp [Process.atBoundary, Session.fresh] at hk
    · intro _ _ _ _ i hi
      simp [Process.atBoundary, Session.fresh] at hi
    · exact fun pid' q hne hq => hreplayed pid' q ((Function.update_of_ne hne _ _).trans hq)
  | advance pid o p prog L issued hp he hl hi =>
    refine Sound.set pid h rfl rfl ?_ ?_ ?_ (hreplayed pid _ (procs_set_self σ pid _)) ?_
    · intro i hm
      change i ∈ issued
      rw [hi]
      split
      · exact List.mem_cons_of_mem _ (h.spent_issued i hm)
      · exact h.spent_issued i hm
    · intro pid' q hne hq k hk hk'
      rcases localStep_held hl k hk with hk | hf
      · exact hne (h.rows_once pid' pid q p hq hp k hk' hk)
      · exact hne ((free_iff σ pid k).mp hf pid' ((h.locks k pid').mpr ⟨q, hq, hk'⟩))
    · intro pid' q hne hq i hm hm'
      rcases localStep_drawn hl i hm with hm | ⟨hn, _⟩
      · exact hne (h.idents_once pid' pid q p hq hp i hm' hm)
      · exact hn ((h.replayed pid' q hq).drawn i hm').1
    · exact fun pid' q hne hq => hreplayed pid' q ((Function.update_of_ne hne _ _).trans hq)

theorem sound_initial (db : B.Store) (spent : List B.Ident) :
    Sound older skips (initial db spent : System B C α) := by
  refine ⟨?_, ?_, ?_, fun i hi => hi, ?_⟩
  · simp [initial]
  · intro pid pid' p p' hp
    contradiction
  · intro pid pid' p p' hp
    contradiction
  · intro pid p hp
    contradiction

end Soundness

section Simulation

variable {σ σ' : System B C α}

theorem toAtomic_set (pid : ℕ) (p : Process B C α) :
    (σ.set pid p).toAtomic = σ.toAtomic.put pid p.toHeader := by
  simp only [toAtomic, Atomic.put, set, Atomic.mk.injEq, true_and]
  funext pid'
  by_cases hne : pid' = pid
  · subst hne
    simp
  · simp [Function.update_of_ne hne]

theorem toAtomic_heads {pid : ℕ} {p : Process B C α} (hp : σ.procs pid = some p) :
    σ.toAtomic.heads pid = some p.toHeader := by simp [toAtomic, hp]

/-- A process that can still be cancelled has not ended at its last boundary. -/
theorem base_active {F : Frame B} {base p : Prog B α} {L : Session B}
    (h : Replay F base (p, L)) (hv : ∀ v, p ≠ .pure v) (he : ∀ e, p ≠ .raise e) :
    (∀ v, base ≠ .pure v) ∧ ∀ e, base ≠ .raise e := by
  have aux : ∀ c c' : Prog B α × Session B, Relation.ReflTransGen (Move F) c c' →
      (∀ v, c.1 = .pure v → c'.1 = .pure v) ∧ ∀ e, c.1 = .raise e → c'.1 = .raise e := by
    intro c c' hcc
    induction hcc using Relation.ReflTransGen.head_induction_on with
    | refl => exact ⟨fun _ h => h, fun _ h => h⟩
    | head hm _ ih => cases hm <;> exact ⟨fun _ h => by contradiction, fun _ h => by contradiction⟩
  have hb := aux _ _ h
  exact ⟨fun v hb' => hv v (hb.1 v hb'), fun e hb' => he e (hb.2 e hb')⟩

/-- A process that had ended at its last boundary has done nothing since. -/
theorem session_of_ended {F : Frame B} {base p : Prog B α} {L : Session B}
    (h : Replay F base (p, L)) (hb : (∃ v, base = .pure v) ∨ ∃ e, base = .raise e) : L = .fresh B := by
  rcases Relation.ReflTransGen.cases_head h with hsame | ⟨c, hm, -⟩
  · exact (Prod.mk.inj hsame).2.symm
  · rcases hb with ⟨v, rfl⟩ | ⟨e, rfl⟩ <;> contradiction

theorem fail_step (h : Sound older skips σ) {pid : ℕ} {p : Process B C α} {e : B.Error}
    (hp : σ.procs pid = some p)
    (hr : e = B.cancelled ∨ ∃ L, p.base.Runs ⟨older, p.since, σ.db, σ.spent, skips⟩ (.fresh B)
      (.raised e L))
    (hv : ∀ v, p.prog ≠ .pure v) (he : ∀ e, p.prog ≠ .raise e) :
    Atomic.Step program older skips σ.toAtomic (.fail pid e) (σ.abort pid p e).toAtomic := by
  have hb := base_active (h.replayed pid p hp).replay hv he
  rw [abort, toAtomic_set]
  exact .fail σ.toAtomic pid p.toHeader e (toAtomic_heads hp) (h.replayed pid p hp).window hr
    hb.1 hb.2

theorem localStep_active {s : B.Store} {free : B.Key → Bool} {issued : List B.Ident}
    {o : Oracle B} {p : Prog B α} {L : Session B} {r : Prog B α × Session B}
    (h : localStep s free issued o p L = some r) :
    (∀ v, p ≠ .pure v) ∧ ∀ e, p ≠ .raise e := by
  constructor
  · rintro v rfl
    contradiction
  · rintro e rfl
    contradiction

section Replayed

variable {db : B.Store} {spent issued : List B.Ident} {p : Process B C α} {next : Prog B α}

theorem Replayed.runs_commit (h : Replayed older skips db spent issued p)
    (hq : p.prog = .commit next) (hL : p.session.pending = [])
    (hd : B.deferred (view db p.session.flushed) (p.session.flushed.filterMap Write.inserted) = none) :
    p.base.Runs ⟨older, p.since, db, spent, skips⟩ (.fresh B) (.committed next p.session) := by
  apply runs_of_replay h.replay
  rw [hq]
  refine ⟨hL, ?_⟩
  simp only [hd]

theorem Replayed.runs_deferred (h : Replayed older skips db spent issued p) {e : B.Error}
    (hq : p.prog = .commit next) (hL : p.session.pending = [])
    (hd : B.deferred (view db p.session.flushed)
      (p.session.flushed.filterMap Write.inserted) = some e) :
    p.base.Runs ⟨older, p.since, db, spent, skips⟩ (.fresh B) (.raised e p.session) := by
  apply runs_of_replay h.replay
  rw [hq]
  refine ⟨hL, ?_⟩
  simp only [hd]

theorem Replayed.runs_refused (h : Replayed older skips db spent issued p) (hrefl : ∀ s, older s s)
    (hspent : ∀ i ∈ spent, i ∈ issued) {free : B.Key → Bool} {o : Oracle B} {e : B.Error}
    {L : Session B} (hk : ∀ k next r, p.prog = .tryLock k next →
      B.get (view db p.session.flushed) k = some r → free k = false → skips k)
    (hl : localStep db free issued o p.prog p.session = some (.raise e, L)) :
    p.base.Runs ⟨older, p.since, db, spent, skips⟩ (.fresh B) (.raised e L) := by
  rcases localStep_cases (F := ⟨older, p.since, db, spent, skips⟩) rfl (h.reads hrefl) hspent
    (fun i hm => (h.drawn i hm).1) hk hl with hm | ⟨next, e', hq, he', hf⟩
  · exact runs_of_replay (h.replay.tail hm) rfl
  · cases he'
    have hreplay := h.replay
    rw [hq] at hreplay
    exact runs_of_replay hreplay (Or.inr ⟨e, L, hf, rfl⟩)

end Replayed

/-- A process that commits could have run to its commit in one piece. -/
theorem runs_of_commit (h : Sound older skips σ) {pid : ℕ} {p : Process B C α} {next : Prog B α}
    (hp : σ.procs pid = some p) (hq : p.prog = .commit next) (hL : p.session.pending = [])
    (hd : B.deferred (view σ.db p.session.flushed)
      (p.session.flushed.filterMap Write.inserted) = none) :
    p.base.Runs ⟨older, p.since, σ.db, σ.spent, skips⟩ (.fresh B)
      (.committed next p.session) := (h.replayed pid p hp).runs_commit hq hL hd

/-- A process that a deferred constraint refuses could have run there in one piece. -/
theorem runs_of_deferred (h : Sound older skips σ) {pid : ℕ} {p : Process B C α} {next : Prog B α}
    {e : B.Error} (hp : σ.procs pid = some p) (hq : p.prog = .commit next)
    (hL : p.session.pending = [])
    (hd : B.deferred (view σ.db p.session.flushed)
      (p.session.flushed.filterMap Write.inserted) = some e) :
    p.base.Runs ⟨older, p.since, σ.db, σ.spent, skips⟩ (.fresh B) (.raised e p.session) :=
  (h.replayed pid p hp).runs_deferred hq hL hd

/-- A process whose statement is refused could have run there in one piece. -/
theorem runs_of_refused (h : Sound older skips σ) (hrefl : ∀ s, older s s) {pid : ℕ} {o : Oracle B}
    {p : Process B C α} {e : B.Error} {L : Session B} (hk : SkipsOnly skips σ (.run pid o))
    (hp : σ.procs pid = some p)
    (hl : localStep σ.db (σ.free pid) σ.issued o p.prog p.session = some (.raise e, L)) :
    p.base.Runs ⟨older, p.since, σ.db, σ.spent, skips⟩ (.fresh B) (.raised e L) :=
  (h.replayed pid p hp).runs_refused hrefl h.spent_issued (SkipsOnly.passes hk hp) hl

/-- A statement that ends no act leaves the atomic state as it is; the others are
whole transactions. -/
theorem step_simulates (h : Sound older skips σ) (hrefl : ∀ s, older s s) {l : Label B C}
    {act : Option (Atomic.Act B C)} (hs : Stepped program σ l act σ') (hk : SkipsOnly skips σ l) :
    match act with
    | none => σ'.toAtomic = σ.toAtomic
    | some act => Atomic.Step program older skips σ.toAtomic act σ'.toAtomic := by
  cases hs with
  | start pid c hp =>
    rw [toAtomic_set]
    exact .start σ.toAtomic pid c (by simp [toAtomic, hp])
  | cancel pid p hp hv he => exact fail_step h hp (Or.inl rfl) hv he
  | call pid o p q next hp hq hL =>
    rw [toAtomic_set]
    have hr := h.replayed pid p hp
    have hrun := runs_of_replay (o := .calling q next p.session) hr.replay (by rw [hq]; rfl)
    exact .call σ.toAtomic pid p.toHeader q next (o.answer q) p.session
      (toAtomic_heads hp) hr.window hrun
  | commit pid o p next hp hq hL hd =>
    convert Atomic.Step.commit σ.toAtomic pid p.toHeader next p.session (toAtomic_heads hp)
      (h.replayed pid p hp).window (runs_of_commit h hp hq hL hd) using 1
    simp only [commit, toAtomic, Atomic.put, set, Atomic.mk.injEq, true_and]
    funext pid'
    by_cases hne : pid' = pid
    · subst hne
      simp [Process.atBoundary]
    · simp [Function.update_of_ne hne]
  | deferred pid o p next e hp hq hL hd =>
    exact fail_step h hp (Or.inr ⟨p.session, runs_of_deferred h hp hq hL hd⟩) (by simp [hq]) (by simp [hq])
  | refused pid o p e L hp hl =>
    have hact := localStep_active hl
    exact fail_step h hp (Or.inr ⟨L, runs_of_refused h hrefl hk hp hl⟩) hact.1 hact.2
  | advance pid o p prog L issued hp he hl hi =>
    simp only [toAtomic, set, Atomic.mk.injEq, true_and]
    funext pid'
    by_cases hne : pid' = pid
    · subst hne
      simp [hp]
    · simp [Function.update_of_ne hne]

/-- Runs of the statement-level system are runs of the atomic one, provided that
whole transactions only ever lead to newer stores. -/
theorem reach_of_run {ok : System B C α → Label B C → Prop}
    {allowed : Atomic B C α → Atomic.Act B C → Prop} {σ₀ : System B C α}
    (hrefl : ∀ s, older s s) (htrans : ∀ s t u, older s t → older t u → older s u)
    (hallowed : ∀ σ l act σ', ok σ l → Stepped program σ l (some act) σ' →
      allowed σ.toAtomic act)
    (hmono : ∀ a act a', Atomic.Reach program allowed older skips σ₀.toAtomic a →
      Atomic.Step program older skips a act a' → older a.db a'.db)
    (hskips : ∀ σ l, Run program ok σ₀ σ → ok σ l → SkipsOnly skips σ l)
    (h₀ : Sound older skips σ₀) (h : Run program ok σ₀ σ) :
    Sound older skips σ ∧ Atomic.Reach program allowed older skips σ₀.toAtomic σ.toAtomic := by
  induction h with
  | refl => exact ⟨h₀, .refl⟩
  | @tail σ₁ σ₂ hrun hstep ih =>
    obtain ⟨l, hl, hok⟩ := hstep
    obtain ⟨act, hs⟩ := stepped_of_step hl
    have hk := hskips σ₁ l hrun hok
    have hsim := step_simulates ih.1 hrefl hs hk
    cases act with
    | none =>
      have hdb : older σ₁.db σ₂.db := by
        change older σ₁.toAtomic.db σ₂.toAtomic.db
        rw [show σ₂.toAtomic = σ₁.toAtomic from hsim]
        exact hrefl _
      exact ⟨sound_of_stepped hrefl htrans ih.1 hs hk hdb, hsim ▸ ih.2⟩
    | some act =>
      exact ⟨sound_of_stepped hrefl htrans ih.1 hs hk (hmono _ _ _ ih.2 hsim),
        ih.2.tail ⟨act, hsim, hallowed _ _ _ _ hok hs⟩⟩

end Simulation

end System

end RowLocking
