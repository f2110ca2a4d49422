import ApexPayments.RowLocking.Races

/-!
How a program ends that looks a row up and inserts it if it is missing: with the answer from a
store in which it saw the row, or with its insert executed.
-/
namespace RowLocking

variable {B : Backend} {α : Type} {F : Frame B}

namespace Stop

/-- The stretch ends with the answer and writes nothing. -/
def Gives (x : Except B.Error α) : Stop B α → Prop
  | raised e _ => x = .error e
  | committed next L => L.flushed = [] ∧ ∃ a, x = .ok a ∧ next = .pure a
  | _ => False

end Stop

namespace Prog

/-- A program takes back no statement that it has executed. -/
theorem flushed_ensures (p : Prog B α) (L : Session B) :
    p.Ensures F L fun o => ∀ L', o.session? = some L' → ∀ w ∈ L.flushed, w ∈ L'.flushed := by
  induction p generalizing L with
  | pure a =>
    intro o ho L' h
    subst ho
    cases h
    exact fun _ hw => hw
  | raise e =>
    intro o ho L' h
    subst ho
    contradiction
  | read next ih =>
    intro o ⟨s, _, ho⟩
    exact ih _ (L.see s) o ho
  | lock k next ih =>
    intro o ho
    rcases ho with ⟨s, _, _, ho⟩ | ⟨r, _, ho⟩
    · exact ih _ (L.see s) o ho
    · exact ih _ (L.hold k) o ho
  | tryLock k next ih =>
    intro o ho
    rcases ho with ⟨s, _, _, ho⟩ | ⟨r, _, ho⟩ | ⟨_, ho⟩
    · exact ih _ (L.see s) o ho
    · exact ih _ (L.hold k) o ho
    · exact ih _ L o ho
  | stage w next ih => exact fun o ho => ih (L.stage w) o ho
  | flush next ih =>
    intro o ho L' h w hw
    rcases ho with ⟨_, ho⟩ | ⟨e, L₁, _, rfl⟩
    · exact ih L.flushAll o ho L' h w (List.mem_append_left _ hw)
    · contradiction
  | draw next ih =>
    intro o ⟨i, _, _, ho⟩
    exact ih _ (L.draw i) o ho
  | ask q next ih =>
    intro o ⟨a, ho⟩
    exact ih _ L o ho
  | call q next ih =>
    intro o ho L' h
    subst ho
    cases h
    exact fun _ hw => hw
  | commit next ih =>
    intro o ⟨_, ho⟩ L' h
    split at ho
    · subst ho
      contradiction
    · subst ho
      cases h
      exact fun _ hw => hw

variable {K : B.Key} {answer : B.Store → Except B.Error α} {p : Prog B α} {L : Session B}

theorem Checks.ne_raise (h : p.Checks K answer) (e : B.Error) : p ≠ .raise e := by
  intro he
  subst he
  cases h

theorem answering_ensures (hdeferred : ∀ s, B.deferred s [] = none) {x : Except B.Error α}
    (hL : L.flushed = []) (hp : L.pending = []) :
    (answering x : Prog B α).Ensures F L (Stop.Gives x) := by
  cases x with
  | error e =>
    intro o ho
    obtain rfl : o = .raised e L := ho
    exact rfl
  | ok a =>
    intro o ho
    rcases ho with ⟨_, _, ho⟩ | ⟨e, L', hfails, _⟩
    · have hflushed : L.flushAll.flushed = [] := by simp [Session.flushAll, hL, hp]
      rw [hflushed, List.filterMap_nil, hdeferred] at ho
      obtain rfl : o = .committed (.pure a) L.flushAll := ho
      exact ⟨hflushed, a, rfl, rfl⟩
    · rw [hp] at hfails
      exact hfails.elim

/-- The program has seen the row, and ends with the answer, or it has missed it, and every way in
which it ends without an error has inserted it. -/
theorem Checks.ensures (hdeferred : ∀ s, B.deferred s [] = none) (h : p.Checks K answer)
    (hL : L.flushed = []) (hp : L.pending = []) : p.Ensures F L fun o =>
      (∃ s, F.Sees s ∧ B.get s K ≠ none ∧ o.Gives (answer s)) ∨
      ∃ s, F.Sees s ∧ B.get s K = none ∧ ∀ L', o.session? = some L' → Inserted K L' := by
  induction h generalizing L with
  | draw next _ ih =>
    intro o ⟨i, _, _, ho⟩
    exact ih i (L := L.draw i) hL hp o ho
  | read next hsome hnone =>
    intro o ⟨s, hs, ho⟩
    rw [hL] at ho
    change (next s).Runs F (L.see s) o at ho
    by_cases hget : B.get s K = none
    · obtain ⟨r, rest, hr, hnext⟩ := hnone s hget
      rw [hnext] at ho
      refine Or.inr ⟨s, hs.1, hget, fun L' hL' => ?_⟩
      rcases ho with ⟨_, ho⟩ | ⟨e, L₁, _, rfl⟩
      · refine ⟨.insert r, flushed_ensures rest _ o ho L' hL' _ ?_, hr⟩
        simp [Session.flushAll, Session.stage]
      · contradiction
    · rw [hsome s hget] at ho
      exact Or.inl ⟨s, hs.1, hget, answering_ensures hdeferred (L := L.see s) hL hp o ho⟩

/-- A process at the start of whose stretch nothing is left to do has ended. -/
theorem eq_pure_of_replay {a : α} {c : Prog B α × Session B} (h : Replay F (.pure a) c) :
    c.1 = .pure a := by
  rcases Relation.ReflTransGen.cases_head h with heq | ⟨c', hmove, _⟩
  · rw [← heq]
  · cases hmove

end Prog

end RowLocking
