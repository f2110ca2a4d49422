import Mathlib.Order.Lattice
import Mathlib.Data.List.Basic

/-!
Lists in which some elements need another one in front of them: a log, a queue, the rows of a table
in the order of their insertion.
-/
namespace Heralds

variable {α β : Type} {needs : α → Prop} {opens : α → α → Prop} {xs ys : List α} {x : α}

/-- Every element that needs a herald has one in front of it. -/
def Heralded (needs : α → Prop) (opens : α → α → Prop) (xs : List α) : Prop :=
  ∀ front x rest, xs = front ++ x :: rest → needs x → ∃ y ∈ front, opens y x

theorem heralded_nil : Heralded needs opens [] := by
  intro front x rest hxs
  have hlen := congrArg List.length hxs
  simp at hlen

theorem Heralded.of_prefix (h : Heralded needs opens ys) (hxs : xs <+: ys) :
    Heralded needs opens xs := by
  intro front x rest hsplit hneeds
  obtain ⟨tail, rfl⟩ := hxs
  apply h front x (rest ++ tail) _ hneeds
  rw [hsplit, List.append_assoc, List.cons_append]

theorem Heralded.exists_of_mem (h : Heralded needs opens xs) (hx : x ∈ xs) (hneeds : needs x) :
    ∃ y ∈ xs, opens y x := by
  obtain ⟨front, rest, hsplit⟩ := List.append_of_mem hx
  obtain ⟨y, hy, hopens⟩ := h front x rest hsplit hneeds
  refine ⟨y, ?_, hopens⟩
  rw [hsplit]
  exact List.mem_append_left _ hy

/-- Each new element has its herald among the old ones, or in front of it among the new ones. -/
theorem Heralded.append (h : Heralded needs opens xs)
    (hys : ∀ front y rest, ys = front ++ y :: rest → needs y →
      (∃ x ∈ xs, opens x y) ∨ ∃ x ∈ front, opens x y) : Heralded needs opens (xs ++ ys) := by
  intro front x rest hsplit hneeds
  rcases List.append_eq_append_iff.mp hsplit with ⟨more, hfront, hsuffix⟩ | ⟨more, hxs, hsuffix⟩
  · rcases hys more x rest hsuffix hneeds with ⟨y, hy, hopens⟩ | ⟨y, hy, hopens⟩
    · exact ⟨y, hfront ▸ List.mem_append_left _ hy, hopens⟩
    · exact ⟨y, hfront ▸ List.mem_append_right _ hy, hopens⟩
  · cases more with
    | nil =>
      rw [List.append_nil] at hxs
      rcases hys [] x rest hsuffix.symm hneeds with ⟨y, hy, hopens⟩ | ⟨y, hy, -⟩
      · exact ⟨y, hxs ▸ hy, hopens⟩
      · exact absurd hy List.not_mem_nil
    | cons z more =>
      obtain ⟨rfl, -⟩ := List.cons.inj hsuffix
      exact h front x more hxs hneeds

/-- A map that changes neither who needs a herald nor who is one. -/
theorem Heralded.map {needs' : β → Prop} {opens' : β → β → Prop} {f : α → β}
    (h : Heralded needs opens xs) (hneeds : ∀ x ∈ xs, needs' (f x) → needs x)
    (hopens : ∀ y ∈ xs, ∀ x ∈ xs, opens y x → opens' (f y) (f x)) :
    Heralded needs' opens' (xs.map f) := by
  intro front x' rest hsplit hneeds'
  obtain ⟨front', rest', rfl, rfl, hrest⟩ := List.map_eq_append_iff.mp hsplit
  obtain ⟨x, rest'', rfl, rfl, rfl⟩ := List.map_eq_cons_iff.mp hrest
  have hx : x ∈ front' ++ x :: rest'' := List.mem_append_right _ (List.mem_cons_self ..)
  obtain ⟨y, hy, hyx⟩ := h front' x rest'' rfl (hneeds x hx hneeds')
  exact ⟨f y, List.mem_map_of_mem hy, hopens y (List.mem_append_left _ hy) x hx hyx⟩

/-- In a list in order, a smaller element is in front. -/
theorem mem_front_of_lt {κ : Type} [LinearOrder κ] {key : α → κ} {front rest : List α} {y : α}
    (hsorted : (front ++ x :: rest).Pairwise fun a b => key a ≤ key b)
    (hy : y ∈ front ++ x :: rest) (hlt : key y < key x) : y ∈ front := by
  rcases List.mem_append.mp hy with hy | hy
  · exact hy
  · exfalso
    rcases List.mem_cons.mp hy with rfl | hy
    · exact lt_irrefl _ hlt
    · have hle := (List.pairwise_cons.mp (List.pairwise_append.mp hsorted).2.1).1 y hy
      exact absurd hlt (not_lt.mpr hle)

end Heralds
