import ApexPayments.InFlight
import Mathlib.Algebra.Order.BigOperators.Group.List

/-!
The suspense account holds exactly the payments in flight, as long as no payment is
made from or to the suspense account itself. Settling or reversing a payment then
always finds the money.
-/
namespace ApexPayments.Service

open Domain Store Ledger Payments Webhooks RowLocking

section Suspense

/-- The amount of all payments that are held and not resolved. -/
def heldAmount (s : Database) : ℤ :=
  s.payments.sum fun p => if Payment.inFlight p then p.amount else 0

/-- The account is not the one for money in flight. -/
def notSuspense (payer payee : Uuid) : Prop :=
  payer ≠ suspenseAccountId ∧ payee ≠ suspenseAccountId

instance (payer payee : Uuid) : Decidable (notSuspense payer payee) :=
  inferInstanceAs (Decidable (_ ∧ _))

theorem heldAmount_eq {s : Database} {base : ℤ}
    (h : Flows notSuspense {suspenseAccountId} base s) :
    s.payments.sum (share {suspenseAccountId}) = heldAmount s := by
  refine congrArg List.sum (List.map_congr_left ?_)
  intro p hp
  have hpayer := (h.terms p hp).1.1
  simp [share, amountAt, hpayer]

theorem suspense_of_flows {s : Database} {base : ℤ}
    (h : Flows notSuspense {suspenseAccountId} base s) :
    balanceOf s suspenseAccountId = base + heldAmount s := by
  rw [← heldAmount_eq h, ← h.total, total, Finset.sum_singleton]

theorem flows_suspense {s s' : Database} {used used' : List Uuid} {base : ℤ}
    (h : Flows notSuspense {suspenseAccountId} base s)
    (hc : Changes (Call.between notSuspense) s used s' used') :
    Flows notSuspense {suspenseAccountId} base s' := by
  refine hc.invariant (fun _ _ _ _ => Flows.change ?_) h
  intro x y hxy
  simp [hxy.1, hxy.2]

/-- Each payment in flight is covered. -/
theorem suspense_covers {s : Database} {base : ℤ}
    (h : Flows notSuspense {suspenseAccountId} base s) (hbase : 0 ≤ base) {p : Payment}
    (hp : p ∈ s.payments.rows) (hin : Payment.inFlight p = true) :
    p.amount ≤ balanceOf s suspenseAccountId := by
  have hle : p.amount ≤ heldAmount s := by
    unfold heldAmount Table.sum
    have hterm : (if Payment.inFlight p then p.amount else 0) = p.amount := if_pos hin
    rw [← hterm]
    refine List.single_le_sum ?_ _ (List.mem_map_of_mem hp)
    intro x hx
    obtain ⟨q, hq, rfl⟩ := List.mem_map.mp hx
    have hpos := (h.terms q hq).2
    split_ifs <;> omega
  rw [suspense_of_flows h]
  omega

end Suspense

section Funds

variable {ext : Externals}

/-- Lack of funds is only met by a hold or by a refund. -/
def FundsRaise (c : Call) (trace : List (RowLocking.Event backend)) (e : Exn) : Prop :=
  ∀ a b n, e = .insufficientFunds a b n →
    (∃ k req, c = .create k req ∧ trace = []) ∨ ∃ k id req, c = .refund k id req

theorem fundsRaise_of_failing {a : Moment} {pid : ℕ} {h : Head} {e : Exn} {base : ℤ}
    (howned : Owned ext a) (hp : a.heads pid = some h)
    (hflows : Flows notSuspense {suspenseAccountId} base a.db) (hbase : 0 ≤ base)
    (hcalls : Call.between notSuspense h.call) (hf : Failing ext (a.frame Older skips h) h e) :
    FundsRaise h.call h.trace e := by
  intro x b n he
  cases hf with
  | create k req hc ht hf => exact Or.inl ⟨k, req, hc, ht⟩
  | resolve k req p ws result hc hws ht hf =>
    obtain ⟨q, hq, hlt⟩ := hf.2 x b n he
    have hown := owned_answered hc hws ht
    have hold := howned.holds pid h k req p hp hc (openedBy_of_owned hown)
    have hfound := (hold.unresolved hown).1
    obtain rfl : p = q := Option.some.inj (hfound.symm.trans hq)
    obtain ⟨t, hmade⟩ := hold.made
    have hin : Payment.inFlight p = true := by
      rw [hmade]
      rfl
    have hle := suspense_covers hflows hbase (Table.mem_of_find? hfound) hin
    exact absurd hlt (not_lt.mpr hle)
  | refund k id req hc hf => exact Or.inr ⟨k, id, req, hc⟩
  | webhook rawBody signature hc hf =>
    obtain ⟨p, hfound, hst, hlt⟩ := hf.2 ⟨x, b, n, he⟩
    have hle := suspense_covers hflows hbase (Table.mem_of_find? hfound) (by simp [Payment.inFlight, hst])
    exact absurd hlt (not_lt.mpr hle)
  | expire timeoutMinutes hc hf =>
    obtain ⟨ps, hstale, -, hexp⟩ := hf.2 ⟨x, b, n, he⟩
    obtain ⟨done, p, rest, s₁, used₁, hps, hdone, hfound, hlt⟩ := hexp.2 ⟨x, b, n, he⟩
    have hchanges : Changes (Call.between notSuspense) a.db a.spent s₁ used₁ :=
      changes_of_reversedAll hdone fun q hq => (hstale q (by simp [hps, hq])).1
    have hst := (hstale p (by simp [hps])).1
    have hle := suspense_covers (flows_suspense hflows hchanges) hbase (Table.mem_of_find? hfound)
      (by simp [Payment.inFlight, hst])
    exact absurd hlt (not_lt.mpr hle)
  | post type referenceId postings hc hf =>
    rw [hc] at hcalls
    exact hcalls.elim

end Funds

section Claim

variable {ext : Externals} {db : Database} {spent : List Uuid} {σ : State}

/-- Without payments from or to the suspense account, it holds exactly the money in
flight, and only holds and refunds ever lack funds. -/
theorem suspense_covers_money_in_flight (hpayments : db.payments.rows = [])
    (hsuspense : 0 ≤ balanceOf db suspenseAccountId)
    (h : System.Run (program ext) (Starts (Call.between notSuspense)) (System.initial db spent) σ) :
    balanceOf σ.db suspenseAccountId = balanceOf db suspenseAccountId + heldAmount σ.db ∧
      ∀ pid p a b n, σ.procs pid = some p → p.prog = .raise (.insufficientFunds a b n) →
        (∃ k req, p.call = .create k req ∧ p.trace = []) ∨
          ∃ k id req, p.call = .refund k id req := by
  have hinit : Flows notSuspense {suspenseAccountId} (balanceOf db suspenseAccountId) db := by
    have hflows := Flows.initial (T := notSuspense) (S := {suspenseAccountId}) hpayments
    rwa [total, Finset.sum_singleton] at hflows
  have hrunning₀ : Running ext (Call.between notSuspense) anyKey (System.initial db spent) :=
    running_initial db spent
  obtain ⟨hrunning, hchanges⟩ := changes_of_run hrunning₀ h
  refine ⟨suspense_of_flows (flows_suspense hinit hchanges), ?_⟩
  obtain ⟨-, hreach⟩ := reach_of_service (fun _ _ h => h) (fun _ _ _ _ => startsAct_of_stepped)
    skipsOnly_anyKey hrunning₀ h
  have hraised := raised_of_reach FundsRaise ?_ (fun _ _ _ _ _ he => by contradiction)
    (fun _ _ _ _ _ _ he => by contradiction) hrunning₀.owned ?_ hreach
  · intro pid p a b n hp hraise
    exact hraised pid p.toHeader _ (System.toAtomic_heads hp)
      ((hrunning.sound.replayed pid p hp).raised _ hraise) a b n rfl
  · intro a pid h e hr hp hf
    have hcalls := calls_of_reach (fun _ _ h => h) hrunning₀.calls hr
    have hc := changes_of_reach (fun _ _ h => h) hrunning₀.owned hrunning₀.calls hr
    exact fundsRaise_of_failing (owned_of_reach hrunning₀.owned hr) hp (flows_suspense hinit hc)
      hsuspense (hcalls pid h hp) hf
  · intro pid h e hp
    contradiction

theorem suspense_covers_money_in_flight_sample :
    ∃ σ, System.Run (program sampleExternals) (Starts (Call.between notSuspense))
        (System.initial sampleDatabase []) σ ∧ heldAmount σ.db = 50 ∧
      balanceOf σ.db suspenseAccountId =
        balanceOf sampleDatabase suspenseAccountId + heldAmount σ.db := by
  obtain ⟨σ, hrun, hheld⟩ : ∃ σ, System.Run (program sampleExternals)
      (Starts (Call.between notSuspense)) (System.initial sampleDatabase []) σ ∧
      heldAmount σ.db = 50 := by
    refine System.exists_run_of_exec (.start 0 (.create "key" (sampleRequest 3)) ::
      sampleSteps 0 10 40 (.ok ⟨.captured, some "psp", none⟩) 0) ?_ ?_
    · decide +kernel
    · exact starts_sample (show notSuspense 2 3 by decide)
  exact ⟨σ, hrun, hheld, (suspense_covers_money_in_flight rfl (by decide) hrun).1⟩

/-- A captured payment to the suspense account stays there. -/
theorem suspense_not_covered :
    ¬ ∀ (ext : Externals) (db : Database) (spent : List Uuid) (σ : State),
      db.payments.rows = [] → 0 ≤ balanceOf db suspenseAccountId →
      System.Run (program ext) (Starts Call.isService) (System.initial db spent) σ →
      balanceOf σ.db suspenseAccountId = balanceOf db suspenseAccountId + heldAmount σ.db := by
  intro hall
  obtain ⟨σ, hrun, hsums⟩ : ∃ σ, System.Run (program sampleExternals) (Starts Call.isService)
      (System.initial sampleDatabase []) σ ∧
      (balanceOf σ.db suspenseAccountId, heldAmount σ.db) = (50, 0) := by
    refine System.exists_run_of_exec (.start 0 (.create "key" (sampleRequest suspenseAccountId)) ::
      sampleSteps 0 10 62 (.ok ⟨.captured, some "psp", none⟩) 0) ?_ ?_
    · decide +kernel
    · exact starts_sample trivial
  have hbalance := hall sampleExternals sampleDatabase [] σ rfl (by decide) hrun
  obtain ⟨h₁, h₂⟩ := Prod.mk.inj hsums
  rw [h₁, h₂] at hbalance
  exact absurd hbalance (by decide)

end Claim

end ApexPayments.Service
