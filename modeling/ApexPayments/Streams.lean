import Mathlib.Data.List.Basic
import Mathlib.Logic.Function.Basic

/-!
What a consumer of a stream knows: one view for each key, changed by the events about the key. Only
the events about a key, in their order, decide its view.
-/
namespace Streams

variable {ε κ V : Type} [DecidableEq κ] {about : ε → Option κ} {apply : V → ε → V} {v₀ : V}
  {evs : List ε} {ev : ε} {key : κ}

/-- One event is received. -/
def receive (about : ε → Option κ) (apply : V → ε → V) (views : κ → V) (ev : ε) : κ → V :=
  match about ev with
  | some key => Function.update views key (apply (views key) ev)
  | none => views

/-- All events are received, in order. -/
def replay (about : ε → Option κ) (apply : V → ε → V) (v₀ : V) (evs : List ε) : κ → V :=
  evs.foldl (receive about apply) fun _ => v₀

theorem receive_of_about (views : κ → V) (h : about ev = some key) :
    receive about apply views ev key = apply (views key) ev := by
  unfold receive
  rw [h]
  exact Function.update_self ..

theorem receive_of_ne (views : κ → V) (h : about ev ≠ some key) :
    receive about apply views ev key = views key := by
  unfold receive
  cases hev : about ev with
  | none => rfl
  | some other =>
    refine Function.update_of_ne ?_ _ _
    rintro rfl
    exact h hev

theorem foldl_receive (views : κ → V) (evs : List ε) (key : κ) :
    evs.foldl (receive about apply) views key =
      (evs.filter fun ev => about ev = some key).foldl apply (views key) := by
  induction evs generalizing views with
  | nil => rfl
  | cons ev evs ih =>
    rw [List.foldl_cons, ih]
    by_cases h : about ev = some key
    · rw [receive_of_about views h, List.filter_cons, if_pos (decide_eq_true h), List.foldl_cons]
    · rw [receive_of_ne views h, List.filter_cons, if_neg (by simpa using h)]

theorem replay_apply (about : ε → Option κ) (apply : V → ε → V) (v₀ : V) (evs : List ε) (key : κ) :
    replay about apply v₀ evs key =
      (evs.filter fun ev => about ev = some key).foldl apply v₀ :=
  foldl_receive _ evs key

theorem replay_append (evs more : List ε) :
    replay about apply v₀ (evs ++ more) = more.foldl (receive about apply) (replay about apply v₀ evs) :=
  List.foldl_append

/-- Nothing is known of a key that no event is about. -/
theorem replay_of_none (h : ∀ ev ∈ evs, about ev ≠ some key) : replay about apply v₀ evs key = v₀ := by
  rw [replay_apply, List.filter_eq_nil_iff.mpr]
  · rfl
  · intro ev hev
    rw [decide_eq_true_eq]
    exact h ev hev

theorem replay_append_self (evs : List ε) (h : about ev = some key) :
    replay about apply v₀ (evs ++ [ev]) key = apply (replay about apply v₀ evs key) ev := by
  rw [replay_append]
  exact receive_of_about _ h

theorem replay_append_of_ne (evs : List ε) (h : about ev ≠ some key) :
    replay about apply v₀ (evs ++ [ev]) key = replay about apply v₀ evs key := by
  rw [replay_append]
  exact receive_of_ne _ h

/-- A change of the events that the consumer does not see. -/
theorem replay_map {f : ε → ε} (habout : ∀ ev ∈ evs, about (f ev) = about ev)
    (happly : ∀ v, ∀ ev ∈ evs, apply v (f ev) = apply v ev) :
    replay about apply v₀ (evs.map f) = replay about apply v₀ evs := by
  have hmap : ∀ views : κ → V, (evs.map f).foldl (receive about apply) views =
      evs.foldl (receive about apply) views := by
    induction evs with
    | nil => exact fun _ => rfl
    | cons ev evs ih =>
      intro views
      have hself : ev ∈ ev :: evs := List.mem_cons_self ..
      have hreceive : receive about apply views (f ev) = receive about apply views ev := by
        unfold receive
        rw [habout ev hself]
        simp only [happly _ ev hself]
      rw [List.map_cons, List.foldl_cons, List.foldl_cons, hreceive]
      exact ih (fun x hx => habout x (List.mem_cons_of_mem _ hx))
        (fun v x hx => happly v x (List.mem_cons_of_mem _ hx)) _
  exact hmap _

end Streams
