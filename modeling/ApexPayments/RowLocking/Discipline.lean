import ApexPayments.RowLocking.Refinement
import Mathlib.Order.Lattice

/-!
Locking disciplines. A policy says which rows a transaction may lock and what it may stage,
given the rows that it holds already. A program that obeys a policy keeps to it in every
state that its process reaches. If the policy has rows locked in the order of their ranks,
no processes wait for each other in a circle.
-/
namespace RowLocking

variable {B : Backend} {C α β : Type}

/-- What a transaction that holds the rows `ks` may do, and what its locks may rely on. -/
structure Policy (B : Backend) where
  locks : List B.Key → B.Key → Prop
  finds : List B.Key → B.Row → Prop
  tries : B.Key → Prop
  stages : List B.Key → Write B → Prop
  executes : List B.Key → Write B → Prop

/-- The rows held once the staged statements have been executed. -/
def holdAll (ks : List B.Key) (ws : List (Write B)) : List B.Key :=
  ws.foldl (fun ks w => addHeld ks w.key) ks

section Ranks

variable {ι : Type} [LinearOrder ι]

/-- The row is held already, or it ranks above every row that is held. -/
def Climbs (rank : B.Key → Option ι) (ks : List B.Key) (k : B.Key) : Prop :=
  k ∈ ks ∨ ∀ a, rank k = some a → ∀ b ∈ ks.filterMap rank, b < a

theorem climbs_unranked {rank : B.Key → Option ι} {ks : List B.Key} {k : B.Key}
    (h : rank k = none) : Climbs rank ks k := by
  right
  intro a ha
  rw [h] at ha
  contradiction

/-- The transaction has locked its ranked rows in the order of their ranks; the row that it
locked last comes first. -/
def Session.Ascending (rank : B.Key → Option ι) (L : Session B) : Prop :=
  (L.held.filterMap rank).Pairwise fun a b => b < a

theorem ascending_addHeld {rank : B.Key → Option ι} {ks : List B.Key} {k : B.Key}
    (hk : Climbs rank ks k) (h : (ks.filterMap rank).Pairwise fun a b => b < a) :
    ((addHeld ks k).filterMap rank).Pairwise fun a b => b < a := by
  unfold addHeld
  by_cases hmem : k ∈ ks
  · rw [if_pos hmem]
    exact h
  · rw [if_neg hmem]
    cases hrank : rank k with
    | none =>
      rw [List.filterMap_cons_none hrank]
      exact h
    | some a =>
      rw [List.filterMap_cons_some hrank]
      exact List.pairwise_cons.mpr ⟨hk.resolve_left hmem a hrank, h⟩

end Ranks

/-- Staged statements are executed one after the other. -/
def Policy.ExecutesAll (P : Policy B) : List B.Key → List (Write B) → Prop
  | _, [] => True
  | ks, w :: ws => P.executes ks w ∧ P.ExecutesAll (addHeld ks w.key) ws

namespace Prog

/-- The program keeps to the policy, started with the rows `ks` held and the statements `ws`
staged, and ends in `Q`. -/
def Obeys (P : Policy B) (Q : α → List B.Key → List (Write B) → Prop) :
    Prog B α → List B.Key → List (Write B) → Prop
  | .pure a, ks, ws => Q a ks ws
  | .raise _, _, _ => True
  | .read next, ks, ws => ∀ s, (next s).Obeys P Q ks ws
  | .lock k next, ks, ws => P.locks ks k ∧ (next none).Obeys P Q ks ws ∧
      ∀ s r, B.get s k = some r → P.finds ks r → (next (some r)).Obeys P Q (addHeld ks k) ws
  | .tryLock k next, ks, ws => P.tries k ∧ (next none).Obeys P Q ks ws ∧
      ∀ s r, B.get s k = some r → (next (some r)).Obeys P Q (addHeld ks k) ws
  | .stage w next, ks, ws => P.stages ks w ∧ next.Obeys P Q ks (ws ++ [w])
  | .flush next, ks, ws => P.ExecutesAll ks ws ∧ next.Obeys P Q (holdAll ks ws) []
  | .draw next, ks, ws => ∀ i, (next i).Obeys P Q ks ws
  | .ask _ next, ks, ws => ∀ a, (next a).Obeys P Q ks ws
  | .call _ next, _, _ => ∀ a, (next a).Obeys P Q [] []
  | .commit next, _, _ => next.Obeys P Q [] []

section Rules

variable {P : Policy B} {Q : β → List B.Key → List (Write B) → Prop} {ks : List B.Key}
  {ws : List (Write B)}

theorem obeys_bind (p : Prog B α) (f : α → Prog B β) :
    (p >>= f).Obeys P Q ks ws ↔ p.Obeys P (fun a => (f a).Obeys P Q) ks ws := by
  change (p.bind f).Obeys P Q ks ws ↔ _
  induction p generalizing ks ws with
  | pure a => rfl
  | raise e => rfl
  | read next ih => exact forall_congr' fun s => ih s
  | lock k next ih =>
    simp only [bind, Obeys, ih]
  | tryLock k next ih =>
    simp only [bind, Obeys, ih]
  | stage w next ih => simp only [bind, Obeys, ih]
  | flush next ih => simp only [bind, Obeys, ih]
  | draw next ih => exact forall_congr' fun i => ih i
  | ask q next ih => exact forall_congr' fun a => ih a
  | call q next ih => exact forall_congr' fun a => ih a
  | commit next ih => exact ih

theorem Obeys.bind {p : Prog B α} {f : α → Prog B β}
    (h : p.Obeys P (fun a => (f a).Obeys P Q) ks ws) : (p >>= f).Obeys P Q ks ws :=
  (obeys_bind p f).mpr h

theorem Obeys.mono {Q' : β → List B.Key → List (Write B) → Prop} {p : Prog B β}
    (h : p.Obeys P Q' ks ws) (hQ : ∀ b ks' ws', Q' b ks' ws' → Q b ks' ws') :
    p.Obeys P Q ks ws := by
  induction p generalizing ks ws with
  | pure b => exact hQ b ks ws h
  | raise e => trivial
  | read next ih => exact fun s => ih s (h s)
  | lock k next ih => exact ⟨h.1, ih none h.2.1, fun s r hr hf => ih _ (h.2.2 s r hr hf)⟩
  | tryLock k next ih => exact ⟨h.1, ih none h.2.1, fun s r hr => ih _ (h.2.2 s r hr)⟩
  | stage w next ih => exact ⟨h.1, ih h.2⟩
  | flush next ih => exact ⟨h.1, ih h.2⟩
  | draw next ih => exact fun i => ih i (h i)
  | ask q next ih => exact fun a => ih a (h a)
  | call q next ih => exact fun a => ih a (h a)
  | commit next ih => exact ih h

theorem Obeys.select {g : B.Store → α} {f : α → Prog B β}
    (h : ∀ s, (f (g s)).Obeys P Q ks ws) : (Prog.select g >>= f).Obeys P Q ks ws := h

theorem Obeys.lockRow {k : B.Key} {f : Option B.Row → Prog B β} (hlock : P.locks ks k)
    (hnone : (f none).Obeys P Q ks ws)
    (hsome : ∀ s r, B.get s k = some r → P.finds ks r →
      (f (some r)).Obeys P Q (addHeld ks k) ws) : (Prog.lockRow k >>= f).Obeys P Q ks ws :=
  ⟨hlock, hnone, hsome⟩

theorem Obeys.tryLockRow {k : B.Key} {f : Option B.Row → Prog B β} (htry : P.tries k)
    (hnone : (f none).Obeys P Q ks ws)
    (hsome : ∀ s r, B.get s k = some r → (f (some r)).Obeys P Q (addHeld ks k) ws) :
    (Prog.tryLockRow k >>= f).Obeys P Q ks ws := ⟨htry, hnone, hsome⟩

theorem Obeys.stageRow {w : Write B} {f : Unit → Prog B β} (hstage : P.stages ks w)
    (h : (f ()).Obeys P Q ks (ws ++ [w])) : (Prog.stageRow w >>= f).Obeys P Q ks ws := ⟨hstage, h⟩

theorem Obeys.flushAll {f : Unit → Prog B β} (hexec : P.ExecutesAll ks ws)
    (h : (f ()).Obeys P Q (holdAll ks ws) []) : (Prog.flushAll >>= f).Obeys P Q ks ws := ⟨hexec, h⟩

theorem Obeys.drawIdent {f : B.Ident → Prog B β} (h : ∀ i, (f i).Obeys P Q ks ws) :
    (Prog.drawIdent >>= f).Obeys P Q ks ws := h

theorem Obeys.askFor {q : B.Query} {f : B.Answer q → Prog B β} (h : ∀ a, (f a).Obeys P Q ks ws) :
    (Prog.askFor q >>= f).Obeys P Q ks ws := h

theorem Obeys.callOut {q : B.Query} {f : B.Answer q → Prog B β} (h : ∀ a, (f a).Obeys P Q [] []) :
    (Prog.callOut q >>= f).Obeys P Q ks ws := h

theorem Obeys.commitAll {f : Unit → Prog B β} (hexec : P.ExecutesAll ks ws)
    (h : (f ()).Obeys P Q [] []) : (Prog.commitAll >>= f).Obeys P Q ks ws := ⟨hexec, h⟩

theorem Obeys.stageRows {ws' : List (Write B)} {f : Unit → Prog B β}
    (hstages : ∀ w ∈ ws', P.stages ks w) (h : (f ()).Obeys P Q ks (ws ++ ws')) :
    (Prog.stageRows ws' >>= f).Obeys P Q ks ws := by
  induction ws' generalizing ws with
  | nil =>
    rw [List.append_nil] at h
    exact h
  | cons w ws' ih =>
    refine ⟨hstages w (List.mem_cons_self ..), ?_⟩
    apply ih
    · intro v hv
      exact hstages v (List.mem_cons_of_mem _ hv)
    · rw [List.append_assoc]
      exact h

end Rules

end Prog

section LocalStep

variable {P : Policy B} {Q : α → List B.Key → List (Write B) → Prop} {s : B.Store}
  {free : B.Key → Bool} {issued : List B.Ident} {o : Oracle B} {p p' : Prog B α} {L L' : Session B}

/-- A condition on sessions that survives every statement of the policy. -/
structure Policy.Keeps (P : Policy B) (J : Session B → Prop) : Prop where
  fresh : J (.fresh B)
  see : ∀ L s, J L → J (L.see s)
  draw : ∀ L i, J L → J (L.draw i)
  hold : ∀ L k, P.locks L.held k ∨ P.tries k → J L → J (L.hold k)
  stage : ∀ L w, P.stages L.held w → J L → J (L.stage w)
  execute : ∀ L w ws, L.pending = w :: ws → P.executes L.held w → J L → J (L.execute w ws)

theorem Policy.keeps_true (P : Policy B) : P.Keeps fun _ => True := by
  constructor <;> intros <;> trivial

theorem obeys_of_localStep {J : Session B → Prop} (hJ : P.Keeps J)
    (hp : p.Obeys P Q L.held L.pending) (hL : J L)
    (hfinds : ∀ k next r, p = .lock k next → B.get (view s L.flushed) k = some r →
      P.finds L.held r)
    (h : localStep s free issued o p L = some (p', L')) :
    p'.Obeys P Q L'.held L'.pending ∧ J L' := by
  cases p with
  | pure a => contradiction
  | raise e => contradiction
  | read next =>
    cases h
    exact ⟨hp _, hJ.see L s hL⟩
  | lock k next =>
    obtain ⟨hlock, hnone, hsome⟩ := hp
    simp only [localStep] at h
    split at h
    · cases h
      exact ⟨hnone, hJ.see L s hL⟩
    · rename_i r hr
      split at h
      · cases h
        exact ⟨hsome _ r hr (hfinds k next r rfl hr), hJ.hold L k (Or.inl hlock) hL⟩
      · contradiction
  | tryLock k next =>
    obtain ⟨htries, hnone, hsome⟩ := hp
    simp only [localStep] at h
    split at h
    · cases h
      exact ⟨hnone, hJ.see L s hL⟩
    · rename_i r hr
      split at h
      · cases h
        exact ⟨hsome _ r hr, hJ.hold L k (Or.inr htries) hL⟩
      · cases h
        exact ⟨hnone, hL⟩
  | stage w next =>
    cases h
    exact ⟨hp.2, hJ.stage L w hp.1 hL⟩
  | flush next =>
    obtain ⟨hexec, hnext⟩ := hp
    simp only [localStep] at h
    split at h
    · rename_i hnil
      cases h
      rw [hnil] at hnext ⊢
      exact ⟨hnext, hL⟩
    · rename_i w ws hcons
      rw [hcons] at hexec hnext
      split at h
      · split at h
        · cases h
          exact ⟨trivial, hL⟩
        · cases h
          exact ⟨⟨hexec.2, hnext⟩, hJ.execute L w ws hcons hexec.1 hL⟩
      · contradiction
  | draw next =>
    simp only [localStep] at h
    split at h
    · contradiction
    · cases h
      exact ⟨hp _, hJ.draw L _ hL⟩
  | ask q next =>
    cases h
    exact ⟨hp _, hL⟩
  | call q next => contradiction
  | commit next => contradiction

end LocalStep

namespace System

variable {program : C → Prog B α} {db : B.Store} {spent : List B.Ident} {σ σ' : System B C α}
  {P : Policy B} {D : C → Prop}

/-- A process that keeps to the policy. -/
structure Disciplined (P : Policy B) (J : Session B → Prop) (p : Process B C α) : Prop where
  obeys : p.prog.Obeys P (fun _ _ _ => True) p.session.held p.session.pending
  kept : J p.session

/-- The rows that the step locks are as the policy assumes. -/
def Finds (P : Policy B) (D : C → Prop) (σ : System B C α) (l : Label B C) : Prop :=
  ∀ pid o p k next r, l = .run pid o → σ.procs pid = some p → D p.call → p.prog = .lock k next →
    B.get (view σ.db p.session.flushed) k = some r → P.finds p.session.held r

/-- The call of a process stays the same. -/
theorem call_of_stepped {l : Label B C} {act : Option (Atomic.Act B C)}
    (hs : Stepped program σ l act σ') {pid : ℕ} {p p' : Process B C α} (hp : σ.procs pid = some p)
    (hp' : σ'.procs pid = some p') : p'.call = p.call := by
  by_cases hpid : pid = l.pid
  · subst hpid
    cases hs with
    | start pid c hnone =>
      rw [Label.pid, hnone] at hp
      contradiction
    | cancel pid q hq | deferred pid o q next e hq | refused pid o q e L hq | commit pid o q next hq
    | call pid o q query next hq | advance pid o q prog L issued hq =>
      obtain rfl := Option.some.inj (hq.symm.trans hp)
      obtain rfl := Option.some.inj ((procs_set_self σ pid _).symm.trans hp')
      rfl
  · rw [hs.procs_of_ne hpid, hp] at hp'
    cases hp'
    rfl

theorem disciplined_of_run {J : Session B → Prop} (hJ : P.Keeps J)
    (hprogram : ∀ c, D c → (program c).Obeys P (fun _ _ _ => True) [] [])
    {ok : System B C α → Label B C → Prop} (hfinds : ∀ σ l, ok σ l → Finds P D σ l)
    (h : Run program ok (initial db spent) σ) :
    ∀ pid p, σ.procs pid = some p → D p.call → Disciplined P J p := by
  induction h with
  | refl =>
    intro pid p hp
    contradiction
  | @tail σ₁ σ₂ _ hstep ih =>
    obtain ⟨l, hl, hok⟩ := hstep
    obtain ⟨act, hs⟩ := stepped_of_step hl
    intro pid p hp hD
    by_cases hpid : pid = l.pid
    · subst hpid
      cases hs with
      | start pid c hnone =>
        obtain rfl := Option.some.inj ((procs_set_self σ₁ pid _).symm.trans hp)
        exact ⟨hprogram c hD, hJ.fresh⟩
      | cancel pid q hq hv he | deferred pid o q next e hq hprog hL hd | refused pid o q e L hq hl' =>
        obtain rfl := Option.some.inj ((procs_set_self σ₁ pid _).symm.trans hp)
        exact ⟨trivial, hJ.fresh⟩
      | call pid o q query next hq hprog hL =>
        obtain rfl := Option.some.inj ((procs_set_self σ₁ pid _).symm.trans hp)
        have hobeys := (ih pid q hq hD).obeys
        rw [hprog] at hobeys
        exact ⟨hobeys _, hJ.fresh⟩
      | commit pid o q next hq hprog hL hd =>
        obtain rfl := Option.some.inj ((procs_set_self σ₁ pid _).symm.trans hp)
        have hobeys := (ih pid q hq hD).obeys
        rw [hprog] at hobeys
        exact ⟨hobeys, hJ.fresh⟩
      | advance pid o q prog L issued hq he hl' hi =>
        obtain rfl := Option.some.inj ((procs_set_self σ₁ pid _).symm.trans hp)
        have hprev := ih pid q hq hD
        obtain ⟨hobeys, hkept⟩ := obeys_of_localStep hJ hprev.obeys hprev.kept
          (fun k next r hprog hr => hfinds σ₁ _ hok pid o q k next r rfl hq hD hprog hr) hl'
        exact ⟨hobeys, hkept⟩
    · rw [hs.procs_of_ne hpid] at hp
      exact ih pid p hp hD

section Order

variable {ι : Type} [LinearOrder ι] {rank : B.Key → Option ι}

/-- The row that the next statement of the process needs, when the store is `s`. A key without
a row is not locked. -/
def needs (s : B.Store) (p : Process B C α) : Option B.Key :=
  match p.prog with
  | .lock k _ => if (B.get (view s p.session.flushed) k).isSome then some k else none
  | .flush _ => p.session.pending.head?.map Write.key
  | _ => none

/-- The next statement of the process has to wait for the row `k`. -/
def WaitsOn (σ : System B C α) (pid : ℕ) (k : B.Key) : Prop :=
  σ.free pid k = false ∧ ∃ p, σ.procs pid = some p ∧ needs σ.db p = some k

/-- A process waits for a ranked row that another process holds. -/
def WaitsFor (rank : B.Key → Option ι) (σ : System B C α) (pid pid' : ℕ) : Prop :=
  ∃ k a, rank k = some a ∧ σ.WaitsOn pid k ∧ pid' ≠ pid ∧ (k, pid') ∈ σ.locks

/-- The policy has the ranked rows locked in the order of their ranks. -/
structure Orders (P : Policy B) (rank : B.Key → Option ι) : Prop where
  locks : ∀ ks k, P.locks ks k → Climbs rank ks k
  executes : ∀ ks w, P.executes ks w → Climbs rank ks w.key
  tries : ∀ k, P.tries k → rank k = none

theorem Orders.keeps (h : Orders P rank) : P.Keeps (Session.Ascending rank) where
  fresh := List.Pairwise.nil
  see _ _ hL := hL
  draw _ _ hL := hL
  hold L k hk hL := by
    refine ascending_addHeld ?_ hL
    rcases hk with hk | hk
    · exact h.locks L.held k hk
    · exact climbs_unranked (h.tries k hk)
  stage _ _ _ hL := hL
  execute L w _ _ hw hL := ascending_addHeld (h.executes L.held w hw) hL

theorem WaitsOn.unique {pid : ℕ} {k k' : B.Key} (h : σ.WaitsOn pid k) (h' : σ.WaitsOn pid k') :
    k = k' := by
  obtain ⟨-, p, hp, hneeds⟩ := h
  obtain ⟨-, p', hp', hneeds'⟩ := h'
  obtain rfl := Option.some.inj (hp.symm.trans hp')
  exact Option.some.inj (hneeds.symm.trans hneeds')

/-- What the process has left to do locks the ranked rows in their order. -/
def Orderly (rank : B.Key → Option ι) (p : Process B C α) : Prop :=
  ∃ P, Orders P rank ∧ p.prog.Obeys P (fun _ _ _ => True) p.session.held p.session.pending

/-- The row that the next statement needs comes next in the order. -/
theorem Orderly.climbs {p : Process B C α} (h : Orderly rank p) {s : B.Store} {k : B.Key}
    (hneeds : needs s p = some k) : Climbs rank p.session.held k := by
  obtain ⟨P, hP, hobeys⟩ := h
  unfold needs at hneeds
  cases hprog : p.prog with
  | lock k' next =>
    rw [hprog] at hneeds hobeys
    simp only [Option.ite_none_right_eq_some, Option.some.injEq] at hneeds
    obtain ⟨-, rfl⟩ := hneeds
    exact hP.locks _ _ hobeys.1
  | flush next =>
    rw [hprog] at hneeds hobeys
    obtain ⟨w, hw, rfl⟩ := Option.map_eq_some_iff.mp hneeds
    obtain ⟨ws, hpend⟩ := List.head?_eq_some_iff.mp hw
    rw [hpend] at hobeys
    exact hP.executes _ w hobeys.1.1
  | _ =>
    rw [hprog] at hneeds
    contradiction

/-- A process waits only for rows that rank above those that it holds. -/
theorem lt_of_waitsOn {older : B.Store → B.Store → Prop} {skips : B.Key → Prop}
    (hsound : Sound older skips σ) (horderly : ∀ pid p, σ.procs pid = some p → Orderly rank p)
    {pid : ℕ} {k k' : B.Key} {a b : ι} (hwaits : σ.WaitsOn pid k) (ha : rank k = some a)
    (hheld : (k', pid) ∈ σ.locks) (hb : rank k' = some b) : b < a := by
  obtain ⟨hfree, p, hp, hneeds⟩ := hwaits
  obtain ⟨q, hq, hk'⟩ := (hsound.locks k' pid).mp hheld
  obtain rfl := Option.some.inj (hp.symm.trans hq)
  rcases (horderly pid p hp).climbs hneeds with hmem | hall
  · -- the process holds the row itself, so it is free
    have hown := hsound.free_of_held hp hmem
    rw [hfree] at hown
    contradiction
  · exact hall a ha b (List.mem_filterMap.mpr ⟨k', hk', hb⟩)

/-- Where every process locks the ranked rows in their order, no processes wait for each
other in a circle. -/
theorem acyclic_of_orderly {older : B.Store → B.Store → Prop} {skips : B.Key → Prop}
    (hsound : Sound older skips σ) (horderly : ∀ pid p, σ.procs pid = some p → Orderly rank p)
    (pid : ℕ) :
    ¬ Relation.TransGen (σ.WaitsFor rank) pid pid := by
  intro hcycle
  -- along a chain of waiting processes the awaited ranks go up
  have hclimb : ∀ pid', Relation.TransGen (σ.WaitsFor rank) pid pid' →
      ∀ k a, σ.WaitsOn pid k → rank k = some a →
        ∃ k' b, (k', pid') ∈ σ.locks ∧ rank k' = some b ∧ a ≤ b := by
    intro pid' hchain k a hwaits ha
    induction hchain with
    | single hstep =>
      obtain ⟨k₁, a₁, ha₁, hwaits₁, -, hlock⟩ := hstep
      obtain rfl := hwaits.unique hwaits₁
      exact ⟨k, a, hlock, ha, le_refl a⟩
    | tail _ hstep ih =>
      obtain ⟨k', b, hheld, hb, hle⟩ := ih
      obtain ⟨k₁, a₁, ha₁, hwaits₁, -, hlock⟩ := hstep
      have hlt := lt_of_waitsOn hsound horderly hwaits₁ ha₁ hheld hb
      exact ⟨k₁, a₁, hlock, ha₁, le_trans hle (le_of_lt hlt)⟩
  obtain ⟨_, ⟨k, a, ha, hwaits, -⟩, -⟩ := Relation.TransGen.head'_iff.mp hcycle
  obtain ⟨k', b, hheld, hb, hle⟩ := hclimb pid hcycle k a hwaits ha
  have hlt := lt_of_waitsOn hsound horderly hwaits ha hheld hb
  exact absurd hle (not_le.mpr hlt)

end Order

end System

end RowLocking
