import Mathlib.Algebra.BigOperators.Group.List.Basic
import Mathlib.Algebra.BigOperators.Group.Finset.Basic
import Mathlib.Algebra.BigOperators.Group.Finset.Piecewise
import Mathlib.Algebra.Order.BigOperators.Group.Finset
import Mathlib.Tactic.Abel

/-!
Double-entry bookkeeping over any type of accounts and any commutative group of
amounts. A transaction is a list of signed moves; its effect on an account is the
sum of the moves that name it, and a balanced transaction leaves every total over
the accounts it names as it was.
-/
namespace DoubleEntry

variable {A G : Type*} [DecidableEq A] [AddCommGroup G]

/-- What the moves add to one account. -/
def net (moves : List (A × G)) (a : A) : G :=
  (moves.map fun m => if m.1 = a then m.2 else 0).sum

/-- The sum of all moves; zero for a balanced transaction. -/
def imbalance (moves : List (A × G)) : G := (moves.map Prod.snd).sum

theorem net_nil (a : A) : net ([] : List (A × G)) a = 0 := rfl

theorem net_cons (m : A × G) (moves : List (A × G)) (a : A) :
    net (m :: moves) a = (if m.1 = a then m.2 else 0) + net moves a := by
  simp [net]

theorem net_append (moves moves' : List (A × G)) (a : A) :
    net (moves ++ moves') a = net moves a + net moves' a := by
  simp [net]

theorem net_of_notMem (moves : List (A × G)) (a : A) (h : a ∉ moves.map Prod.fst) :
    net moves a = 0 := by
  induction moves with
  | nil => rfl
  | cons m moves ih =>
    simp only [List.map_cons, List.mem_cons, not_or] at h
    rw [net_cons, if_neg (Ne.symm h.1), ih h.2, add_zero]

theorem net_perm {moves moves' : List (A × G)} (h : moves.Perm moves') (a : A) :
    net moves a = net moves' a := (h.map _).sum_eq

/-- Over a set of accounts the moves add up to those that name one of them. -/
theorem sum_net (S : Finset A) (moves : List (A × G)) :
    ∑ a ∈ S, net moves a = (moves.map fun m => if m.1 ∈ S then m.2 else 0).sum := by
  induction moves with
  | nil => simp [net_nil]
  | cons m moves ih =>
    simp only [net_cons, Finset.sum_add_distrib, ih, List.map_cons, List.sum_cons,
      Finset.sum_ite_eq]

/-- A balanced transaction moves nothing into or out of a set that contains all
its accounts. -/
theorem sum_net_of_subset (S : Finset A) (moves : List (A × G))
    (hS : ∀ m ∈ moves, m.1 ∈ S) : ∑ a ∈ S, net moves a = imbalance moves := by
  rw [sum_net]
  refine congrArg List.sum (List.map_congr_left ?_)
  intro m hm
  rw [if_pos (hS m hm)]

/-- Finitely many accounts hold anything, and together they hold `total`. -/
def AmountsTo (holding : A → G) (total : G) : Prop :=
  ∃ S : Finset A, (∀ a ∉ S, holding a = 0) ∧ ∑ a ∈ S, holding a = total

/-- Every set of accounts that is large enough holds the total. -/
theorem AmountsTo.exists_finset {holding : A → G} {total : G} (h : AmountsTo holding total)
    (T : Finset A) :
    ∃ S, T ⊆ S ∧ (∀ a ∉ S, holding a = 0) ∧ ∑ a ∈ S, holding a = total := by
  obtain ⟨S, hzero, hsum⟩ := h
  refine ⟨S ∪ T, Finset.subset_union_right, ?_, ?_⟩
  · intro a ha
    exact hzero a fun hS => ha (Finset.mem_union_left T hS)
  · rw [← hsum]
    refine (Finset.sum_subset Finset.subset_union_left ?_).symm
    exact fun a _ ha => hzero a ha

theorem AmountsTo.unique {holding : A → G} {total total' : G} (h : AmountsTo holding total)
    (h' : AmountsTo holding total') : total = total' := by
  obtain ⟨S, hzero, hsum⟩ := h
  obtain ⟨S', hSS', -, hsum'⟩ := h'.exists_finset S
  rw [← hsum, ← hsum']
  exact Finset.sum_subset hSS' fun a _ ha => hzero a ha

/-- A balanced transaction leaves the total of all accounts as it was. -/
theorem AmountsTo.post {holding : A → G} {total : G} (h : AmountsTo holding total)
    {moves : List (A × G)} (hbal : imbalance moves = 0) :
    AmountsTo (fun a => holding a + net moves a) total := by
  obtain ⟨S, hnamed, hzero, hsum⟩ := h.exists_finset (moves.map Prod.fst).toFinset
  refine ⟨S, ?_, ?_⟩
  · intro a ha
    have hnot : a ∉ moves.map Prod.fst := fun hmem => ha (hnamed (List.mem_toFinset.mpr hmem))
    simp only [hzero a ha, net_of_notMem moves a hnot, add_zero]
  · rw [Finset.sum_add_distrib, hsum, sum_net_of_subset S moves ?_, hbal, add_zero]
    exact fun m hm => hnamed (List.mem_toFinset.mpr (List.mem_map_of_mem hm))

/-- Where no account is overdrawn, none holds more than the total. -/
theorem AmountsTo.le [PartialOrder G] [IsOrderedAddMonoid G] {holding : A → G} {total : G}
    (h : AmountsTo holding total) (hnonneg : ∀ a, 0 ≤ holding a) (a : A) :
    holding a ≤ total := by
  obtain ⟨S, hmem, -, hsum⟩ := h.exists_finset {a}
  rw [← hsum]
  exact Finset.single_le_sum (fun b _ => hnonneg b) (hmem (Finset.mem_singleton_self a))

end DoubleEntry
