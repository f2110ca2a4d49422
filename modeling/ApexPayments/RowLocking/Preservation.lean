import ApexPayments.RowLocking.Logic

/-!
Invariants of an open session. A condition that every kind of statement preserves
holds along every stretch of a program built from such statements, and every error
of the stretch comes from a statement that was executed under the condition.
-/
namespace RowLocking

variable {B : Backend} {α β : Type}

namespace Stop

/-- A stretch that ends inside its transaction ends in `I`, and its errors are in `E`. -/
def Within (I : Session B → Prop) (E : B.Error → Prop) : Stop B α → Prop
  | value _ L => I L
  | raised e _ => E e
  | committed _ _ => True
  | calling _ _ _ => True

end Stop

namespace Prog

variable {F : Frame B} {I : Session B → Prop} {E : B.Error → Prop}

/-- Started in `I`, the program stays in `I` and raises only errors in `E`. -/
def Preserves (F : Frame B) (I : Session B → Prop) (E : B.Error → Prop) (p : Prog B α) : Prop :=
  ∀ L, I L → p.Ensures F L (Stop.Within I E)

theorem Preserves.bind {p : Prog B α} {f : α → Prog B β} (hp : p.Preserves F I E)
    (hf : ∀ a, (f a).Preserves F I E) : (p >>= f).Preserves F I E := by
  intro L hL o ho
  obtain ⟨o', hr, ho'⟩ := (runs_bind F p f L o).mp ho
  have h := hp L hL o' hr
  cases o' with
  | value a L' => exact hf a L' h o ho'
  | raised e L' =>
    cases ho'
    exact h
  | committed next L' =>
    cases ho'
    trivial
  | calling q next L' =>
    cases ho'
    trivial

theorem Preserves.pure (a : α) : (Pure.pure a : Prog B α).Preserves F I E := by
  rintro L hL o rfl
  exact hL

theorem Preserves.raise {e : B.Error} (he : E e) : (Prog.raise e : Prog B α).Preserves F I E := by
  rintro L hL o rfl
  exact he

/-- A specification whose outcomes meet the condition. -/
theorem Preserves.of_ensures {p : Prog B α} {E' : Session B → B.Error → Session B → Prop}
    {Q : Session B → α → Session B → Prop}
    (h : ∀ L, I L → p.Ensures F L (Stop.Ends (E' L) (Q L)))
    (hE : ∀ L e L', I L → E' L e L' → E e) (hQ : ∀ L a L', I L → Q L a L' → I L') :
    p.Preserves F I E := by
  intro L hL
  refine (h L hL).mono ?_
  rintro (_ | _ | _ | _) ho
  · exact hQ L _ _ hL ho
  · exact hE L _ _ hL ho
  · exact ho.elim
  · exact ho.elim

/-- The condition does not depend on what a session has read or drawn nor on its locks
of rows in `K`, and survives a flush; what a flush or the deferred constraints refuse is
in `E`. -/
structure Steady (F : Frame B) (I : Session B → Prop) (E : B.Error → Prop)
    (K : B.Key → Prop) : Prop where
  sees : ∀ L s, I L → I (L.see s)
  holds : ∀ L k, K k → I L → I (L.hold k)
  draws : ∀ L i, I L → I (L.draw i)
  flushes : ∀ L, I L → F.Flushes L.flushed L.pending → I L.flushAll
  refuses : ∀ L e, I L → F.FlushFails e L.flushed L.pending → E e
  deferred : ∀ s rows e, B.deferred s rows = some e → E e

namespace Steady

variable {K : B.Key → Prop}

theorem select (h : Steady F I E K) (g : B.Store → α) : (select g).Preserves F I E := by
  rintro L hL o ⟨s, hs, rfl⟩
  exact h.sees L s hL

theorem lockRow (h : Steady F I E K) {k : B.Key} (hk : K k) : (lockRow k).Preserves F I E := by
  rintro L hL o (⟨s, hs, hn, rfl⟩ | ⟨r, hr, rfl⟩)
  · exact h.sees L s hL
  · exact h.holds L k hk hL

theorem tryLockRow (h : Steady F I E K) {k : B.Key} (hk : K k) : (tryLockRow k).Preserves F I E := by
  rintro L hL o (⟨s, hs, hn, rfl⟩ | ⟨r, hr, rfl⟩ | ⟨hskip, rfl⟩)
  · exact h.sees L s hL
  · exact h.holds L k hk hL
  · exact hL

theorem flushAll (h : Steady F I E K) : (flushAll : Prog B Unit).Preserves F I E := by
  rintro L hL o (⟨hf, rfl⟩ | ⟨e, L', hf, rfl⟩)
  · exact h.flushes L hL hf
  · exact h.refuses L e hL hf

theorem drawIdent (h : Steady F I E K) : (drawIdent : Prog B B.Ident).Preserves F I E := by
  rintro L hL o ⟨i, hs, hd, rfl⟩
  exact h.draws L i hL

theorem askFor (q : B.Query) : (askFor q).Preserves F I E := by
  rintro L hL o ⟨a, rfl⟩
  exact hL

theorem callOut (q : B.Query) : (callOut q).Preserves F I E := by
  rintro L hL o rfl
  trivial

theorem commitAll (h : Steady F I E K) : (commitAll : Prog B Unit).Preserves F I E := by
  rintro L hL o (⟨hf, hp, ho⟩ | ⟨e, L', hf, rfl⟩)
  · split at ho
    · rename_i e hd
      rw [ho]
      exact h.deferred _ _ e hd
    · rw [ho]
      trivial
  · exact h.refuses L e hL hf

theorem stageRow {w : Write B} (hw : ∀ L, I L → I (L.stage w)) :
    (stageRow w).Preserves F I E := by
  rintro L hL o rfl
  exact hw L hL

end Steady

end Prog

end RowLocking
