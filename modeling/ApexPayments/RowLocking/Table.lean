import Mathlib.Data.List.Nodup
import Mathlib.Algebra.BigOperators.Group.List.Basic
import Mathlib.Tactic.Ring

/-!
Tables with a primary key. A table is a list of rows in insertion order whose
keys are distinct; writing a row replaces the row of its key or appends it.
-/
namespace RowLocking

structure Table {κ ρ : Type} (key : ρ → κ) where
  rows : List ρ
  nodup : (rows.map key).Nodup

namespace Table

variable {κ ρ : Type} [DecidableEq κ] {key : ρ → κ}

def putRow (key : ρ → κ) (r : ρ) : List ρ → List ρ
  | [] => [r]
  | x :: xs => if key x = key r then r :: xs else x :: putRow key r xs

theorem mem_keys_putRow (r : ρ) (xs : List ρ) (k : κ) :
    k ∈ (putRow key r xs).map key ↔ k = key r ∨ k ∈ xs.map key := by
  induction xs with
  | nil => simp [putRow]
  | cons x xs ih =>
    unfold putRow
    split
    · rename_i h
      simp [h]
    · simp only [List.map_cons, List.mem_cons, ih]
      tauto

theorem nodup_putRow (r : ρ) (xs : List ρ) (h : (xs.map key).Nodup) :
    ((putRow key r xs).map key).Nodup := by
  induction xs with
  | nil => simp [putRow]
  | cons x xs ih =>
    rw [List.map_cons, List.nodup_cons] at h
    unfold putRow
    split
    · rename_i hk
      rw [List.map_cons, List.nodup_cons, ← hk]
      exact h
    · rename_i hk
      rw [List.map_cons, List.nodup_cons, mem_keys_putRow]
      exact ⟨fun hm => hm.elim hk h.1, ih h.2⟩

def empty (key : ρ → κ) : Table key := ⟨[], List.nodup_nil⟩

def put (t : Table key) (r : ρ) : Table key := ⟨putRow key r t.rows, nodup_putRow r t.rows t.nodup⟩

def find? (t : Table key) (k : κ) : Option ρ := t.rows.find? fun r => key r = k

/-- The total of a quantity over all rows. -/
def sum (t : Table key) (f : ρ → ℤ) : ℤ := (t.rows.map f).sum

theorem find?_eq_some_iff (t : Table key) (k : κ) (r : ρ) :
    t.find? k = some r ↔ r ∈ t.rows ∧ key r = k := by
  obtain ⟨xs, hnodup⟩ := t
  unfold find?
  simp only
  induction xs with
  | nil => simp
  | cons x xs ih =>
    rw [List.map_cons, List.nodup_cons] at hnodup
    rw [List.find?_cons]
    by_cases hx : key x = k
    · simp only [hx, decide_true, List.mem_cons]
      constructor
      · intro h
        cases h
        exact ⟨Or.inl rfl, hx⟩
      · rintro ⟨rfl | hr, hk⟩
        · rfl
        · refine absurd (List.mem_map.mpr ⟨r, hr, ?_⟩) hnodup.1
          rw [hk, hx]
    · simp only [hx, decide_false, List.mem_cons, ih hnodup.2]
      constructor
      · rintro ⟨hr, hk⟩
        exact ⟨Or.inr hr, hk⟩
      · rintro ⟨rfl | hr, hk⟩
        · exact absurd hk hx
        · exact ⟨hr, hk⟩

theorem find?_eq_none_iff (t : Table key) (k : κ) :
    t.find? k = none ↔ ∀ r ∈ t.rows, key r ≠ k := by
  simp [find?]

theorem key_of_find? {t : Table key} {k : κ} {r : ρ} (h : t.find? k = some r) : key r = k :=
  ((t.find?_eq_some_iff k r).mp h).2

theorem mem_of_find? {t : Table key} {k : κ} {r : ρ} (h : t.find? k = some r) : r ∈ t.rows :=
  ((t.find?_eq_some_iff k r).mp h).1

theorem find?_of_mem {t : Table key} {r : ρ} (h : r ∈ t.rows) : t.find? (key r) = some r :=
  (t.find?_eq_some_iff (key r) r).mpr ⟨h, rfl⟩

theorem eq_of_key_eq {t : Table key} {r r' : ρ} (h : r ∈ t.rows) (h' : r' ∈ t.rows)
    (hk : key r = key r') : r = r' := by
  have hr := find?_of_mem h
  rw [hk, find?_of_mem h'] at hr
  exact (Option.some.inj hr).symm

/-- Rows are known by their keys. -/
theorem eq_of_keys_eq {t : Table key} {xs ys : List ρ} (hxs : ∀ x ∈ xs, x ∈ t.rows)
    (hys : ∀ y ∈ ys, y ∈ t.rows) (h : xs.map key = ys.map key) : xs = ys := by
  induction xs generalizing ys with
  | nil => exact (List.map_eq_nil_iff.mp h.symm).symm
  | cons x xs ih =>
    cases ys with
    | nil => contradiction
    | cons y ys =>
      obtain ⟨hkey, hkeys⟩ := List.cons.inj h
      have hsame : x = y := eq_of_key_eq (hxs x (List.mem_cons_self ..)) (hys y (List.mem_cons_self ..)) hkey
      have hrest : xs = ys := ih (fun z hz => hxs z (List.mem_cons_of_mem _ hz))
        (fun z hz => hys z (List.mem_cons_of_mem _ hz)) hkeys
      rw [hsame, hrest]

theorem find?_put_self (t : Table key) (r : ρ) : (t.put r).find? (key r) = some r := by
  obtain ⟨xs, hnodup⟩ := t
  unfold find? put
  simp only
  clear hnodup
  induction xs with
  | nil => simp [putRow]
  | cons x xs ih =>
    unfold putRow
    split
    · simp
    · rename_i hx
      simpa [hx] using ih

theorem find?_put_of_ne (t : Table key) (r : ρ) (k : κ) (hk : k ≠ key r) :
    (t.put r).find? k = t.find? k := by
  obtain ⟨xs, hnodup⟩ := t
  unfold find? put
  simp only
  clear hnodup
  induction xs with
  | nil => simp [putRow, Ne.symm hk]
  | cons x xs ih =>
    unfold putRow
    split
    · rename_i hx
      simp [hx, Ne.symm hk]
    · by_cases hxk : key x = k
      · simp [hxk]
      · simpa [hxk] using ih

/-- A row with a new key goes to the end. -/
theorem rows_put_new (t : Table key) (r : ρ) (h : t.find? (key r) = none) :
    (t.put r).rows = t.rows ++ [r] := by
  rw [find?_eq_none_iff] at h
  obtain ⟨xs, hnodup⟩ := t
  unfold put
  simp only at h ⊢
  clear hnodup
  induction xs with
  | nil => rfl
  | cons x xs ih =>
    have hx : key x ≠ key r := h x (by simp)
    simp only [putRow, hx, if_false, List.cons_append, List.cons.injEq, true_and]
    exact ih fun y hy => h y (by simp [hy])

/-- A row with a known key is replaced where it stands. -/
theorem rows_put_old (t : Table key) {r r₀ : ρ} (h : t.find? (key r) = some r₀) :
    (t.put r).rows = t.rows.map fun x => if key x = key r then r else x := by
  have hmem := (t.find?_eq_some_iff _ _).mp h
  obtain ⟨xs, hnodup⟩ := t
  unfold put
  simp only at hmem ⊢
  clear h
  induction xs with
  | nil => simp at hmem
  | cons x xs ih =>
    rw [List.map_cons, List.nodup_cons] at hnodup
    by_cases hx : key x = key r
    · have hrest : ∀ y ∈ xs, (if key y = key r then r else y) = y := by
        intro y hy
        refine if_neg fun hk => hnodup.1 ?_
        rw [hx, ← hk]
        exact List.mem_map_of_mem hy
      rw [putRow, if_pos hx, List.map_cons, if_pos hx, List.map_congr_left hrest, List.map_id']
    · have hmem' : r₀ ∈ xs ∧ key r₀ = key r := by
        refine ⟨(List.mem_cons.mp hmem.1).resolve_left ?_, hmem.2⟩
        rintro rfl
        exact hx hmem.2
      rw [putRow, if_neg hx, List.map_cons, if_neg hx, ih hnodup.2 hmem']

theorem mem_put (t : Table key) (r x : ρ) :
    x ∈ (t.put r).rows ↔ x = r ∨ x ∈ t.rows ∧ key x ≠ key r := by
  constructor
  · intro hx
    by_cases hk : key x = key r
    · refine Or.inl (eq_of_key_eq hx ?_ hk)
      exact mem_of_find? (t.find?_put_self r)
    · have h := find?_of_mem hx
      rw [find?_put_of_ne t r _ hk] at h
      exact Or.inr ⟨mem_of_find? h, hk⟩
  · rintro (rfl | ⟨hx, hk⟩)
    · exact mem_of_find? (t.find?_put_self x)
    · refine mem_of_find? (k := key x) ?_
      rw [find?_put_of_ne t r _ hk]
      exact find?_of_mem hx

/-- Writing a row changes a total by the new row minus the row it replaces. -/
theorem sum_put (t : Table key) (r : ρ) (f : ρ → ℤ) :
    (t.put r).sum f = t.sum f - ((t.find? (key r)).map f).getD 0 + f r := by
  obtain ⟨xs, hnodup⟩ := t
  unfold sum find? put
  simp only
  clear hnodup
  induction xs with
  | nil => simp [putRow]
  | cons x xs ih =>
    unfold putRow
    split
    · rename_i hx
      simp [hx]
      ring
    · rename_i hx
      simp only [List.map_cons, List.sum_cons, ih, hx, decide_false, List.find?_cons_of_neg,
        Bool.false_eq_true, not_false_eq_true]
      ring

theorem sum_put_new (t : Table key) (r : ρ) (f : ρ → ℤ) (h : t.find? (key r) = none) :
    (t.put r).sum f = t.sum f + f r := by
  rw [sum_put, h]
  simp

theorem sum_put_old (t : Table key) {r r₀ : ρ} (f : ρ → ℤ) (h : t.find? (key r) = some r₀) :
    (t.put r).sum f = t.sum f - f r₀ + f r := by
  rw [sum_put, h]
  simp

end Table

end RowLocking
