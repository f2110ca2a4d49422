import ApexPayments.Webhooks
import ApexPayments.RowLocking.Logic

/-!
Proof rules for the statements that the services share: row locks of one table,
staged rows and flushes, and the errors with which the database refuses a row.
-/
namespace ApexPayments.Store

open Domain RowLocking

variable {α β : Type} {F : Frame backend} {L : Session backend} {R : Stop backend β → Prop}

section RowLocks

theorem ensures_lockBalance {a : Uuid} {f : Option AccountBalance → Program β}
    (hnone : ∀ s, F.Reads L s → (view s L.flushed).accountBalances.find? a = none →
      (f none).Ensures F (L.see s) R)
    (hsome : ∀ r, (view F.hi L.flushed).accountBalances.find? a = some r →
      (f (some r)).Ensures F (L.hold (.accountBalance a)) R) :
    (lockBalance a >>= f).Ensures F L R := by
  rintro o (⟨s, hs, hn, ho⟩ | ⟨row, hrow, ho⟩)
  · exact hnone s hs (Option.map_eq_none_iff.mp hn) o ho
  · obtain ⟨r, hr, rfl⟩ := Option.map_eq_some_iff.mp hrow
    exact hsome r hr o ho

theorem ensures_lockPayment {id : Uuid} {f : Option Payment → Program β}
    (hnone : ∀ s, F.Reads L s → (view s L.flushed).payments.find? id = none →
      (f none).Ensures F (L.see s) R)
    (hsome : ∀ r, (view F.hi L.flushed).payments.find? id = some r →
      (f (some r)).Ensures F (L.hold (.payment id)) R) :
    (lockPayment id >>= f).Ensures F L R := by
  rintro o (⟨s, hs, hn, ho⟩ | ⟨row, hrow, ho⟩)
  · exact hnone s hs (Option.map_eq_none_iff.mp hn) o ho
  · obtain ⟨r, hr, rfl⟩ := Option.map_eq_some_iff.mp hrow
    exact hsome r hr o ho

theorem ensures_lockRecord {m k : String} {f : Option IdempotencyRecord → Program β}
    (hnone : ∀ s, F.Reads L s → (view s L.flushed).idempotencyKeys.find? (m, k) = none →
      (f none).Ensures F (L.see s) R)
    (hsome : ∀ r, (view F.hi L.flushed).idempotencyKeys.find? (m, k) = some r →
      (f (some r)).Ensures F (L.hold (.idempotencyRecord m k)) R) :
    (lockRecord m k >>= f).Ensures F L R := by
  rintro o (⟨s, hs, hn, ho⟩ | ⟨row, hrow, ho⟩)
  · exact hnone s hs (Option.map_eq_none_iff.mp hn) o ho
  · obtain ⟨r, hr, rfl⟩ := Option.map_eq_some_iff.mp hrow
    exact hsome r hr o ho

end RowLocks

section Statements

theorem ensures_add {r : Row} {f : Unit → Program β}
    (h : (f ()).Ensures F (L.stage (.insert r)) R) : (add r >>= f).Ensures F L R :=
  Prog.Ensures.stageRow h

theorem ensures_modify {r : Row} {f : Unit → Program β}
    (h : (f ()).Ensures F (L.stage (.update r)) R) : (modify r >>= f).Ensures F L R :=
  Prog.Ensures.stageRow h

theorem ensures_flush {f : Unit → Program β}
    (hok : F.Flushes L.flushed L.pending → (f ()).Ensures F L.flushAll R)
    (hfail : ∀ e L', F.FlushFails e L.flushed L.pending → R (.raised e L')) :
    (flush >>= f).Ensures F L R :=
  Prog.Ensures.flushAll hok hfail

theorem ensures_uuid4 {f : Uuid → Program β}
    (h : ∀ i, i ∉ F.spent → i ∉ L.drawn → (f i).Ensures F (L.draw i) R) :
    (uuid4 >>= f).Ensures F L R :=
  Prog.Ensures.drawIdent (B := backend) h

theorem ensures_now {f : Time → Program β} (h : ∀ t, (f t).Ensures F L R) :
    (now >>= f).Ensures F L R :=
  Prog.Ensures.askFor (B := backend) (q := .now) h

theorem ensures_ofExcept {x : Except Exn α} {f : α → Program β}
    (hok : ∀ a, x = .ok a → (f a).Ensures F L R)
    (herror : ∀ e, x = .error e → R (.raised e L)) : (Ledger.ofExcept x >>= f).Ensures F L R := by
  cases x with
  | ok a => exact fun o ho => hok a rfl o ho
  | error e =>
    rintro o rfl
    exact herror e rfl

end Statements

section Refusals

/-- The errors with which the database refuses a statement. -/
def Refused (e : Exn) : Prop :=
  (∃ c, e = .dataError c) ∨ (∃ c, e = .checkViolation c) ∨ (∃ c, e = .uniqueViolation c) ∨
    ∃ c, e = .foreignKeyViolation c

theorem mem_of_firstFailing {checks : List (Bool × Exn)} {e : Exn}
    (h : firstFailing checks = some e) : ∃ c ∈ checks, c.2 = e := by
  induction checks with
  | nil => contradiction
  | cons c checks ih =>
    obtain ⟨ok, e'⟩ := c
    cases ok with
    | true =>
      obtain ⟨c, hc, he⟩ := ih h
      exact ⟨c, List.mem_cons_of_mem _ hc, he⟩
    | false =>
      cases h
      exact ⟨_, List.mem_cons_self .., rfl⟩

theorem refused_of_check (s : Database) (r : Row) : ∀ c ∈ s.checks r, Refused c.2 := by
  cases r <;> simp [Database.checks, Refused]

theorem refused_of_violation {s : Database} {r : Row} {e : Exn} (h : s.violation r = some e) :
    Refused e := by
  obtain ⟨c, hc, rfl⟩ := mem_of_firstFailing h
  exact refused_of_check s r c hc

theorem refused_of_rejected {s : Database} {w : Write backend} {e : Exn}
    (h : w.rejected s = some e) : Refused e := by
  cases w with
  | insert r =>
    simp only [Write.rejected] at h
    split at h
    · cases h
      cases r <;> exact Or.inr (Or.inr (Or.inl ⟨_, rfl⟩))
    · exact refused_of_violation h
  | update r => exact refused_of_violation h

theorem refused_of_flushFails {e : Exn} {fl ws : List (Write backend)}
    (h : F.FlushFails e fl ws) : Refused e := by
  induction ws generalizing fl with
  | nil => exact h.elim
  | cons w ws ih =>
    rcases h with h | ⟨_, h⟩
    · exact refused_of_rejected h
    · exact ih h

end Refusals

end ApexPayments.Store
