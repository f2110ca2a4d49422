import ApexPayments.RowLocking.Logic

/-!
Transactions that run one at a time. `Transacts` says what a program does as a
transaction of its own with nothing beside it: it commits the store it has made when
it returns, and leaves the store as it was when it raises. A program that stays
inside its transaction always has such an outcome.
-/
namespace RowLocking

variable {B : Backend} {α β : Type}

namespace Frame

variable {F : Frame B}

theorem accepts_of_rejected (hsees : F.Sees F.hi) {fl : List (Write B)} {w : Write B}
    (h : w.rejected (view F.hi fl) = none) : F.Accepts fl w := by
  cases w with
  | insert r =>
    simp only [Write.rejected] at h
    split at h
    · contradiction
    · rename_i hnew
      refine ⟨?_, F.hi, hsees, h⟩
      intro r' hr'
      cases hr'
      simpa using hnew
  | update r => exact ⟨by simp, F.hi, hsees, h⟩

/-- Staged statements are all accepted, or one of them is the first to be refused. -/
theorem flushes_or_fails (hsees : F.Sees F.hi) (fl ws : List (Write B)) :
    F.Flushes fl ws ∨ ∃ e, F.FlushFails e fl ws := by
  induction ws generalizing fl with
  | nil => exact Or.inl trivial
  | cons w ws ih =>
    cases hw : w.rejected (view F.hi fl) with
    | some e => exact Or.inr ⟨e, Or.inl hw⟩
    | none =>
      have ha := accepts_of_rejected hsees hw
      rcases ih (fl ++ [w]) with hf | ⟨e, he⟩
      · exact Or.inl ⟨ha, hf⟩
      · exact Or.inr ⟨e, Or.inr ⟨ha, he⟩⟩

/-- The statement that the store refused, after those it accepted. -/
theorem exists_of_flushFails {e : B.Error} {fl ws : List (Write B)}
    (h : F.FlushFails e fl ws) : ∃ before w after, ws = before ++ w :: after ∧
      F.Flushes fl before ∧ w.rejected (view F.hi (fl ++ before)) = some e := by
  induction ws generalizing fl with
  | nil => exact h.elim
  | cons w ws ih =>
    rcases h with h | ⟨ha, h⟩
    · exact ⟨[], w, ws, rfl, trivial, by rwa [List.append_nil]⟩
    · obtain ⟨before, v, after, rfl, hf, hv⟩ := ih h
      refine ⟨w :: before, v, after, rfl, ⟨ha, hf⟩, ?_⟩
      rwa [List.append_assoc] at hv

theorem alone_sees (s t : B.Store) (spent : List B.Ident) :
    (alone s spent).Sees t ↔ t = s :=
  ⟨fun h => h.2, fun h => ⟨h.symm, h⟩⟩

/-- With nothing beside it a statement is accepted exactly when the store does not
refuse it. -/
theorem accepts_alone {s : B.Store} {spent : List B.Ident} {fl : List (Write B)} {w : Write B} :
    (alone s spent).Accepts fl w ↔ w.rejected (view s fl) = none := by
  constructor
  · rintro ⟨hnew, t, ht, hv⟩
    rw [alone_sees] at ht
    subst ht
    cases w with
    | insert r =>
      have hget : B.get (view t fl) (B.keyOf r) = none := hnew r rfl
      simp only [Write.rejected, hget, Option.isSome_none, Bool.false_eq_true, if_false]
      exact hv
    | update r => exact hv
  · exact accepts_of_rejected ((alone_sees s s spent).mpr rfl)

end Frame

namespace Prog

/-- With nothing beside it a plain read sees the one committed store. -/
theorem runs_select_alone {s : B.Store} {spent : List B.Ident} {g : B.Store → α} {f : α → Prog B β}
    {L : Session B} {o : Stop B β} (hL : ∀ t ∈ L.snapshots, t = s) :
    (select g >>= f).Runs (.alone s spent) L o ↔
      (f (g (view s L.flushed))).Runs (.alone s spent) (L.see s) o := by
  constructor
  · intro ⟨t, ht, ho⟩
    obtain rfl := (Frame.alone_sees s t spent).mp ht.1
    exact ho
  · intro ho
    exact ⟨s, ⟨(Frame.alone_sees s s spent).mpr rfl, hL⟩, ho⟩

/-- The program stays inside its transaction: it neither commits nor calls out. -/
def Inside : Prog B α → Prop
  | .pure _ => True
  | .raise _ => True
  | .read next => ∀ s, (next s).Inside
  | .lock _ next => ∀ r, (next r).Inside
  | .tryLock _ next => ∀ r, (next r).Inside
  | .stage _ next => next.Inside
  | .flush next => next.Inside
  | .draw next => ∀ i, (next i).Inside
  | .ask _ next => ∀ a, (next a).Inside
  | .call _ _ => False
  | .commit _ => False

section Inside

theorem Inside.bind {p : Prog B α} {f : α → Prog B β} (hp : p.Inside)
    (hf : ∀ a, (f a).Inside) : (p >>= f).Inside := by
  change (p.bind f).Inside
  induction p with
  | pure a => exact hf a
  | raise e => trivial
  | read next ih => exact fun s => ih s (hp s)
  | lock k next ih => exact fun r => ih r (hp r)
  | tryLock k next ih => exact fun r => ih r (hp r)
  | stage w next ih => exact ih hp
  | flush next ih => exact ih hp
  | draw next ih => exact fun i => ih i (hp i)
  | ask q next ih => exact fun a => ih a (hp a)
  | call q next ih => exact hp.elim
  | commit next ih => exact hp.elim

theorem inside_pure (a : α) : (Pure.pure a : Prog B α).Inside := trivial

theorem inside_raise (e : B.Error) : (Prog.raise e : Prog B α).Inside := trivial

theorem inside_select (f : B.Store → α) : (select f).Inside := fun _ => trivial

theorem inside_lockRow (k : B.Key) : (lockRow k).Inside := fun _ => trivial

theorem inside_stageRow (w : Write B) : (stageRow w).Inside := trivial

theorem inside_flushAll : (flushAll : Prog B Unit).Inside := trivial

theorem inside_drawIdent : (drawIdent : Prog B B.Ident).Inside := fun _ => trivial

theorem inside_askFor (q : B.Query) : (askFor q).Inside := fun _ => trivial

theorem inside_stageRows (ws : List (Write B)) : (stageRows ws).Inside := by
  induction ws with
  | nil => trivial
  | cons w ws ih => exact ih

end Inside

section Existence

variable {F : Frame B}

/-- The program flushes what it stages before it commits; `clean` says that nothing is
staged now. -/
def Closes : Prog B α → (clean : Bool) → Prop
  | .pure _, _ => True
  | .raise _, _ => True
  | .read next, clean => ∀ s, (next s).Closes clean
  | .lock _ next, clean => ∀ r, (next r).Closes clean
  | .tryLock _ next, clean => ∀ r, (next r).Closes clean
  | .stage _ next, _ => next.Closes false
  | .flush next, _ => next.Closes true
  | .draw next, clean => ∀ i, (next i).Closes clean
  | .ask _ next, clean => ∀ a, (next a).Closes clean
  | .call _ _, _ => True
  | .commit _, clean => clean = true

theorem Closes.of_unclean {p : Prog B α} (h : p.Closes false) (clean : Bool) : p.Closes clean := by
  induction p with
  | pure a => trivial
  | raise e => trivial
  | read next ih => exact fun s => ih s (h s)
  | lock k next ih => exact fun r => ih r (h r)
  | tryLock k next ih => exact fun r => ih r (h r)
  | stage w next ih => exact h
  | flush next ih => exact h
  | draw next ih => exact fun i => ih i (h i)
  | ask q next ih => exact fun a => ih a (h a)
  | call q next ih => trivial
  | commit next ih => contradiction

theorem Inside.closes_bind {p : Prog B α} {f : α → Prog B β} (hp : p.Inside)
    (hf : ∀ a, (f a).Closes false) (clean : Bool) : (p >>= f).Closes clean := by
  change (p.bind f).Closes clean
  induction p generalizing clean with
  | pure a => exact (hf a).of_unclean clean
  | raise e => trivial
  | read next ih => exact fun s => ih s (hp s) clean
  | lock k next ih => exact fun r => ih r (hp r) clean
  | tryLock k next ih => exact fun r => ih r (hp r) clean
  | stage w next ih => exact ih hp false
  | flush next ih => exact ih hp true
  | draw next ih => exact fun i => ih i (hp i) clean
  | ask q next ih => exact fun a => ih a (hp a) clean
  | call q next ih => exact hp.elim
  | commit next ih => exact hp.elim

theorem closes_commitAll (f : Unit → Prog B β) : (commitAll >>= f).Closes false := rfl

/-- Such a program has an outcome, as long as there are identifiers left and every query
has an answer. -/
theorem Closes.exists_runs {p : Prog B α} {clean : Bool} (hp : p.Closes clean)
    (hident : ∀ used : List B.Ident, ∃ i, i ∉ used) (hanswer : ∀ q, Nonempty (B.Answer q))
    (hsees : F.Sees F.hi) {L : Session B} (hclean : clean = true → L.pending = [])
    (hseen : ∀ t ∈ L.snapshots, F.older t F.hi) (hrefl : F.older F.hi F.hi) :
    ∃ o, p.Runs F L o := by
  have hsee : ∀ {L : Session B}, (∀ t ∈ L.snapshots, F.older t F.hi) →
      ∀ t ∈ (L.see F.hi).snapshots, F.older t F.hi := by
    intro L hL t ht
    rcases List.mem_cons.mp ht with rfl | ht
    · exact hrefl
    · exact hL t ht
  induction p generalizing L clean with
  | pure a => exact ⟨.value a L, rfl⟩
  | raise e => exact ⟨.raised e L, rfl⟩
  | read next ih =>
    obtain ⟨o, ho⟩ := @ih _ clean (hp _) (L.see F.hi) hclean (hsee hseen)
    exact ⟨o, F.hi, ⟨hsees, hseen⟩, ho⟩
  | lock k next ih =>
    cases hk : B.get (view F.hi L.flushed) k with
    | none =>
      obtain ⟨o, ho⟩ := @ih none clean (hp none) (L.see F.hi) hclean (hsee hseen)
      exact ⟨o, Or.inl ⟨F.hi, ⟨hsees, hseen⟩, hk, ho⟩⟩
    | some r =>
      obtain ⟨o, ho⟩ := @ih (some r) clean (hp _) (L.hold k) hclean hseen
      exact ⟨o, Or.inr ⟨r, hk, ho⟩⟩
  | tryLock k next ih =>
    cases hk : B.get (view F.hi L.flushed) k with
    | none =>
      obtain ⟨o, ho⟩ := @ih none clean (hp none) (L.see F.hi) hclean (hsee hseen)
      exact ⟨o, Or.inl ⟨F.hi, ⟨hsees, hseen⟩, hk, ho⟩⟩
    | some r =>
      obtain ⟨o, ho⟩ := @ih (some r) clean (hp _) (L.hold k) hclean hseen
      exact ⟨o, Or.inr (Or.inl ⟨r, hk, ho⟩)⟩
  | stage w next ih => exact @ih false hp (L.stage w) (by simp) hseen
  | flush next ih =>
    rcases Frame.flushes_or_fails hsees L.flushed L.pending with hf | ⟨e, he⟩
    · obtain ⟨o, ho⟩ := @ih true hp L.flushAll (fun _ => rfl) hseen
      exact ⟨o, Or.inl ⟨hf, ho⟩⟩
    · exact ⟨.raised e L, Or.inr ⟨e, L, he, rfl⟩⟩
  | draw next ih =>
    obtain ⟨i, hi⟩ := hident (F.spent ++ L.drawn)
    rw [List.mem_append, not_or] at hi
    obtain ⟨o, ho⟩ := @ih i clean (hp i) (L.draw i) hclean hseen
    exact ⟨o, i, hi.1, hi.2, ho⟩
  | ask q next ih =>
    obtain ⟨a⟩ := hanswer q
    obtain ⟨o, ho⟩ := @ih a clean (hp a) L hclean hseen
    exact ⟨o, a, ho⟩
  | call q next ih => exact ⟨.calling q next L, rfl⟩
  | commit next ih =>
    cases hd : B.deferred (view F.hi L.flushed) (L.flushed.filterMap Write.inserted) with
    | some e => exact ⟨.raised e L, hclean hp, by simp only [hd]⟩
    | none => exact ⟨.committed next L, hclean hp, by simp only [hd]⟩

theorem exists_runs {p : Prog B α} (hp : p.Inside) (hident : ∀ used : List B.Ident, ∃ i, i ∉ used)
    (hanswer : ∀ q, Nonempty (B.Answer q)) (hsees : F.Sees F.hi) {L : Session B}
    (hseen : ∀ t ∈ L.snapshots, F.older t F.hi) (hrefl : F.older F.hi F.hi) :
    ∃ o, p.Runs F L o := by
  have hcloses : (p >>= fun a => (.pure a : Prog B α)).Closes false := by
    refine hp.closes_bind ?_ false
    exact fun a => trivial
  obtain ⟨o, ho⟩ := hcloses.exists_runs hident hanswer hsees (by simp) hseen hrefl
  obtain ⟨o', ho', -⟩ := (runs_bind F p _ L o).mp ho
  exact ⟨o', ho'⟩

/-- The outcome of a program that stays inside its transaction is a value or an error. -/
theorem Inside.ends {p : Prog B α} (hp : p.Inside) (L : Session B) :
    p.Ensures F L (Stop.Ends (fun _ _ => True) fun _ _ => True) := by
  induction p generalizing L with
  | pure a =>
    rintro o rfl
    trivial
  | raise e =>
    rintro o rfl
    trivial
  | read next ih =>
    rintro o ⟨s, _, ho⟩
    exact ih _ (hp _) _ o ho
  | lock k next ih =>
    rintro o (⟨s, _, _, ho⟩ | ⟨r, _, ho⟩)
    · exact ih _ (hp _) _ o ho
    · exact ih _ (hp _) _ o ho
  | tryLock k next ih =>
    rintro o (⟨s, _, _, ho⟩ | ⟨r, _, ho⟩ | ⟨_, ho⟩)
    · exact ih _ (hp _) _ o ho
    · exact ih _ (hp _) _ o ho
    · exact ih _ (hp _) _ o ho
  | stage w next ih => exact ih hp _
  | flush next ih =>
    rintro o (⟨_, ho⟩ | ⟨e, L', _, rfl⟩)
    · exact ih hp _ o ho
    · trivial
  | draw next ih =>
    rintro o ⟨i, _, _, ho⟩
    exact ih i (hp i) _ o ho
  | ask q next ih =>
    rintro o ⟨a, ho⟩
    exact ih a (hp a) _ o ho
  | call q next ih => exact hp.elim
  | commit next ih => exact hp.elim

end Existence

/-- A program in a transaction block of its own. -/
def inTransaction (p : Prog B α) : Prog B α := do
  let a ← p
  commitAll
  pure a

end Prog

/-- What a transaction does with nothing beside it: it commits, or an error rolls it
back. -/
inductive Transacts (p : Prog B α) (s : B.Store) (spent : List B.Ident) :
    Except B.Error α → B.Store → List B.Ident → Prop
  | committed (a : α) (L : Session B)
      (h : p.inTransaction.Runs (.alone s spent) (.fresh B) (.committed (.pure a) L)) :
      Transacts p s spent (.ok a) (view s L.flushed) (L.drawn ++ spent)
  | rolledBack (e : B.Error) (L : Session B)
      (h : p.inTransaction.Runs (.alone s spent) (.fresh B) (.raised e L)) :
      Transacts p s spent (.error e) s spent

namespace Transacts

variable {p : Prog B α} {s s' : B.Store} {spent spent' : List B.Ident} {r : Except B.Error α}

/-- A transaction that fails changes nothing. -/
theorem unchanged {e : B.Error} (h : Transacts p s spent (.error e) s' spent') :
    s' = s ∧ spent' = spent := by
  cases h with
  | rolledBack e L h => exact ⟨rfl, rfl⟩

/-- A transaction whose program leaves nothing staged ends as its program does. -/
theorem of_ensures {E : B.Error → Prop} {Q : α → Session B → Prop}
    (h : p.Ensures (.alone s spent) (.fresh B) (Stop.Ends (fun e _ => E e) Q))
    (hpending : ∀ a L, Q a L → L.pending = [])
    (hdeferred : ∀ a L, Q a L →
      B.deferred (view s L.flushed) (L.flushed.filterMap Write.inserted) = none)
    (ht : Transacts p s spent r s' spent') :
    match r with
    | .ok a => ∃ L, Q a L ∧ s' = view s L.flushed ∧ spent' = L.drawn ++ spent
    | .error e => E e := by
  have hall : p.inTransaction.Ensures (.alone s spent) (.fresh B)
      (Stop.Commits E fun next L => ∃ a, next = .pure a ∧ Q a L) := by
    refine Prog.Ensures.bind h (fun e _ he => he) ?_
    intro a L hQ
    have hp := hpending a L hQ
    have hd := hdeferred a L hQ
    refine Prog.Ensures.commitAll ?_ ?_
    · intro _
      rw [flushAll_nil L hp]
      refine ⟨fun e he => ?_, fun _ => ⟨a, rfl, hQ⟩⟩
      rw [Frame.working_of_pending L hp, hp, List.append_nil] at he
      rw [show (Frame.alone s spent).hi = s from rfl, hd] at he
      contradiction
    · intro e L' he
      rw [hp] at he
      exact he.elim
  cases ht with
  | committed a L h =>
    obtain ⟨a', ha, hQ⟩ := hall _ h
    cases ha
    exact ⟨L, hQ, rfl, rfl⟩
  | rolledBack e L h => exact hall _ h

theorem exists_of_inside (hp : p.Inside) (hident : ∀ used : List B.Ident, ∃ i, i ∉ used)
    (hanswer : ∀ q, Nonempty (B.Answer q)) (s : B.Store) (spent : List B.Ident) :
    ∃ r s' spent', Transacts p s spent r s' spent' := by
  have hself : (Frame.alone s spent).Sees s := (Frame.alone_sees s s spent).mpr rfl
  obtain ⟨o, ho⟩ := Prog.exists_runs (F := .alone s spent) hp hident hanswer hself (L := .fresh B)
    (by simp [Session.fresh]) rfl
  have hends := hp.ends (F := .alone s spent) (.fresh B) o ho
  cases o with
  | raised e L =>
    exact ⟨_, _, _, .rolledBack e L ((Prog.runs_bind _ _ _ _ _).mpr ⟨_, ho, rfl⟩)⟩
  | value a L =>
    have hcommit : ∀ o, (Prog.commitAll >>= fun _ => (.pure a : Prog B α)).Runs (.alone s spent) L o →
        p.inTransaction.Runs (.alone s spent) (.fresh B) o := fun o h =>
      (Prog.runs_bind _ _ _ _ _).mpr ⟨_, ho, h⟩
    rcases Frame.flushes_or_fails hself L.flushed L.pending with hf | ⟨e, he⟩
    · cases hd : B.deferred (view s L.flushAll.flushed)
        (L.flushAll.flushed.filterMap Write.inserted) with
      | some e =>
        refine ⟨_, _, _, .rolledBack e L.flushAll (hcommit _ ?_)⟩
        refine (Prog.runs_commitAll _ _ _ _).mpr (Or.inl ⟨hf, ?_⟩)
        simp only [hd, show (Frame.alone s spent).hi = s from rfl]
      | none =>
        refine ⟨_, _, _, .committed a L.flushAll (hcommit _ ?_)⟩
        refine (Prog.runs_commitAll _ _ _ _).mpr (Or.inl ⟨hf, ?_⟩)
        simp only [hd, show (Frame.alone s spent).hi = s from rfl]
    · refine ⟨_, _, _, .rolledBack e L (hcommit _ ?_)⟩
      exact (Prog.runs_commitAll _ _ _ _).mpr (Or.inr ⟨e, L, he, rfl⟩)
  | committed next L => exact hends.elim
  | calling q next L => exact hends.elim

end Transacts

/-- A call that was served as one transaction, between the stores around it. -/
structure Served (B : Backend) (C α : Type) where
  call : C
  before : B.Store
  result : Except B.Error α
  after : B.Store

/-- Calls served one after the other, each as a transaction of its own. -/
inductive Serial {C : Type} (program : C → Prog B α) :
    B.Store → List B.Ident → List (Served B C α) → B.Store → List B.Ident → Prop
  | nil (s : B.Store) (spent : List B.Ident) : Serial program s spent [] s spent
  | cons (c : C) (r : Except B.Error α) (s s₁ s₂ : B.Store) (spent spent₁ spent₂ : List B.Ident)
      (es : List (Served B C α)) (h : Transacts (program c) s spent r s₁ spent₁)
      (rest : Serial program s₁ spent₁ es s₂ spent₂) :
      Serial program s spent (⟨c, s, r, s₁⟩ :: es) s₂ spent₂

namespace Serial

variable {C : Type} {program : C → Prog B α} {s s' : B.Store} {spent spent' : List B.Ident}

theorem of_nil (h : Serial program s spent [] s' spent') : s' = s ∧ spent' = spent := by
  cases h with
  | nil => exact ⟨rfl, rfl⟩

/-- The first call is served before the others. -/
theorem of_cons {e : Served B C α} {es : List (Served B C α)}
    (h : Serial program s spent (e :: es) s' spent') :
    ∃ spent₁, e.before = s ∧ Transacts (program e.call) s spent e.result e.after spent₁ ∧
      Serial program e.after spent₁ es s' spent' := by
  cases h with
  | cons c r s s₁ s₂ spent spent₁ spent₂ es h rest => exact ⟨spent₁, rfl, h, rest⟩

end Serial

/-- Calls of programs that stay inside their transaction can always be served. -/
theorem Serial.exists_of_inside {C : Type} {program : C → Prog B α}
    (hp : ∀ c, (program c).Inside) (hident : ∀ used : List B.Ident, ∃ i, i ∉ used)
    (hanswer : ∀ q, Nonempty (B.Answer q)) (cs : List C) (s : B.Store) (spent : List B.Ident) :
    ∃ es s' spent', Serial program s spent es s' spent' ∧ es.map Served.call = cs := by
  induction cs generalizing s spent with
  | nil => exact ⟨[], s, spent, .nil s spent, rfl⟩
  | cons c cs ih =>
    obtain ⟨r, s₁, spent₁, h⟩ := Transacts.exists_of_inside (hp c) hident hanswer s spent
    obtain ⟨es, s', spent', hrest, hcalls⟩ := ih s₁ spent₁
    exact ⟨⟨c, s, r, s₁⟩ :: es, s', spent', .cons c r s s₁ s' spent spent₁ spent' es h hrest,
      congrArg (c :: ·) hcalls⟩

end RowLocking
