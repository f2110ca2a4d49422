import ApexPayments.AroundPosts
import ApexPayments.Posting

/-!
The money of all accounts together. Posts only move it, so its total never changes,
and since no account is ever overdrawn no single balance can exceed it.
-/
namespace ApexPayments.Service

open Domain Store Ledger Payments RowLocking DoubleEntry

section Solvent

/-- No account is overdrawn, and all of them together hold `T`. -/
structure Solvent (T : ℤ) (s : Database) : Prop where
  amounts : AmountsTo (balanceOf s) T
  nonneg : ∀ a, 0 ≤ balanceOf s a

variable {T : ℤ} {s s' : Database}

/-- The balance rows list what the accounts hold. -/
theorem amountsTo_balances (s : Database) :
    AmountsTo (balanceOf s) (s.accountBalances.sum AccountBalance.balance) := by
  refine ⟨(s.accountBalances.rows.map AccountBalance.accountId).toFinset, ?_, ?_⟩
  · intro a ha
    have hnone : s.accountBalances.find? a = none := by
      refine (Table.find?_eq_none_iff _ _).mpr ?_
      rintro b hb rfl
      exact ha (List.mem_toFinset.mpr (List.mem_map_of_mem hb))
    rw [balanceOf, hnone]
    rfl
  · rw [List.sum_toFinset _ s.accountBalances.nodup, List.map_map]
    refine congrArg List.sum (List.map_congr_left ?_)
    exact fun b hb => balanceOf_of_find (Table.find?_of_mem hb)

theorem solvent_of_rows (h : ∀ b ∈ s.accountBalances.rows, 0 ≤ b.balance) :
    Solvent (s.accountBalances.sum AccountBalance.balance) s := by
  refine ⟨amountsTo_balances s, ?_⟩
  intro a
  unfold balanceOf
  cases hrow : s.accountBalances.find? a with
  | none => exact le_rfl
  | some b => exact h b (Table.mem_of_find? hrow)

theorem Solvent.sum_eq (h : Solvent T s) : s.accountBalances.sum AccountBalance.balance = T :=
  (amountsTo_balances s).unique h.amounts

theorem Solvent.le (h : Solvent T s) (a : Uuid) : balanceOf s a ≤ T := h.amounts.le h.nonneg a

theorem Solvent.congr (h : Solvent T s) (hs : s'.accountBalances = s.accountBalances) :
    Solvent T s' := by
  have hsame : balanceOf s' = balanceOf s := by
    unfold balanceOf
    rw [hs]
  refine ⟨?_, ?_⟩
  · rw [hsame]
    exact h.amounts
  · rw [hsame]
    exact h.nonneg

theorem Solvent.posted {txn : LedgerTransaction} {ps : List Posting} (h : Solvent T s)
    (hp : Posted s s' txn ps) : Solvent T s' := by
  constructor
  · rw [show balanceOf s' = fun a => balanceOf s a + net (moves ps) a from funext hp.balance]
    exact h.amounts.post (validateBalanced_ok hp.balanced).2.2
  · intro a
    by_cases ha : a ∈ ps.map Posting.accountId
    · obtain ⟨p, hmem, rfl⟩ := List.mem_map.mp ha
      exact hp.nonneg p hmem
    · unfold balanceOf
      rw [hp.kept a ha]
      exact h.nonneg a

/-- Every change only moves money. -/
theorem Solvent.change {P : Call → Prop} {used used' : List Uuid} (h : Solvent T s)
    (hc : Change P s used s' used') : Solvent T s' := by
  rcases hc.ledger with hs | ⟨txn, ps, s₁, s₂, hs, hp, hs'⟩
  · exact h.congr hs.balances
  · exact ((h.congr hs.balances).posted hp).congr hs'.balances

theorem Changes.solvent {P : Call → Prop} {used used' : List Uuid}
    (hc : Changes P s used s' used') (h : Solvent T s) : Solvent T s' := by
  have hstep : ∀ t u t' u', Solvent T t → Change P t u t' u' → Solvent T t' :=
    fun _ _ _ _ => Solvent.change
  exact hc.invariant hstep h

end Solvent

section Sessions

variable {F : Frame backend} {T : ℤ} {L L' : Session backend}

/-- The store that the session works on is solvent, and no balance is staged. -/
structure Solid (F : Frame backend) (T : ℤ) (L : Session backend) : Prop where
  solvent : Solvent T (F.working L)
  pending : ∀ w ∈ L.pending, OutsideLedger w.row

theorem solid_fresh (h : Solvent T F.hi) : Solid F T (.fresh backend) :=
  ⟨h, by simp [Session.fresh]⟩

theorem not_balanceRefused_of_check {s : Database} {r : Row} (hr : ∀ b, r ≠ .accountBalance b) :
    ∀ c ∈ s.checks r, ¬ BalanceRefused c.2 := by
  cases r with
  | accountBalance b => exact absurd rfl (hr b)
  | _ => simp [Database.checks, BalanceRefused]

/-- A refusal of a balance comes from a balance that is negative or too large. -/
theorem balance_of_refused {fl ws : List (Write backend)} {e : Exn}
    (h : F.FlushFails e fl ws) (he : BalanceRefused e) :
    ∃ w ∈ ws, ∃ b, w.row = .accountBalance b ∧ ¬ (bigint b.balance = true ∧ 0 ≤ b.balance) := by
  obtain ⟨before, w, after, rfl, -, hw⟩ := Frame.exists_of_flushFails h
  refine ⟨w, by simp, ?_⟩
  have hviolation : (view F.hi (fl ++ before)).violation w.row = some e := by
    cases w with
    | update r => exact hw
    | insert r =>
      simp only [Write.rejected] at hw
      split at hw
      · cases hw
        cases r <;> simp [BalanceRefused, duplicate] at he
      · exact hw
  cases hrow : w.row with
  | accountBalance b =>
    refine ⟨b, rfl, ?_⟩
    rintro ⟨hrange, hnonneg⟩
    rw [hrow] at hviolation
    simp only [Database.violation, Database.checks, firstFailing, hrange, hnonneg, decide_true,
      if_true] at hviolation
    split at hviolation
    · split at hviolation
      · contradiction
      · cases hviolation
        simp [BalanceRefused] at he
    · cases hviolation
      simp [BalanceRefused] at he
  | _ =>
    obtain ⟨c, hc, rfl⟩ := mem_of_firstFailing hviolation
    refine absurd he (not_balanceRefused_of_check ?_ c hc)
    intro b hb
    rw [hrow] at hb
    contradiction

/-- The balance that the loop computes for an account is within the total. -/
theorem Solvent.balance_fits (hT : T < 2 ^ 63) {ps : List Posting} {txn : LedgerTransaction}
    {b : BalancesMap} {L₁ : Session backend} (h : Solvent T (F.working L))
    (hbal : Balanced ps) (hlocked : Locked F (sortedAccountIds ps) zeroBalance b (headed L txn) L₁)
    (hok : (applyPostings txn.id 0 ps b).failure = none) {a : Uuid}
    (ha : a ∈ sortedAccountIds ps) :
    bigint ((applyPostings txn.id 0 ps b).balances a).balance = true ∧
      0 ≤ ((applyPostings txn.id 0 ps b).balances a).balance := by
  have hvalue : ∀ x ∈ sortedAccountIds ps, ((applyPostings txn.id 0 ps b).balances x).balance =
      balanceOf (F.working L) x + net (moves ps) x := by
    intro x hx
    rw [((applyPostings_ok hok).2 x).2, hlocked.balance_of hx]
  have hloop := applyPostings_nonneg hok hbal.positive (hlocked.nonneg h.nonneg)
  have hnonneg : ∀ x, 0 ≤ balanceOf (F.working L) x + net (moves ps) x := by
    intro x
    by_cases hx : x ∈ sortedAccountIds ps
    · rw [← hvalue x hx]
      exact hloop x
    · rw [mem_sortedAccountIds] at hx
      rw [net_of_notMem _ _ (by simpa [moves] using hx), add_zero]
      exact h.nonneg x
  have hle := (h.amounts.post hbal.imbalance).le hnonneg a
  have hpos := hnonneg a
  rw [hvalue a ha]
  refine ⟨decide_eq_true ⟨?_, ?_⟩, hpos⟩ <;> omega

/-- A post from a solvent store stays solvent and is never refused for a balance. -/
theorem post_solid (hT : T < 2 ^ 63) (type : TransactionType) (referenceId : Uuid)
    (ps : List Posting) :
    (post type referenceId ps).Preserves F (Solid F T) (fun e => ¬ BalanceRefused e) := by
  refine Prog.Preserves.of_ensures (fun L _ => post_stops type referenceId ps L) ?_ ?_
  · intro L e L' hL hstops he
    have hout : ∀ w ∈ L.pending ++ [.insert (.ledgerTransaction ⟨0, type, referenceId⟩)],
        ∀ b, w.row ≠ .accountBalance b := by
      intro w hw b hrow
      rcases List.mem_append.mp hw with hw | hw
      · have houtside := hL.pending w hw
        rw [hrow] at houtside
        exact houtside
      · rw [List.mem_singleton.mp hw] at hrow
        contradiction
    cases hstops with
    | invalid h =>
      rcases validateBalanced_error h with ⟨n, rfl⟩ | ⟨m, rfl⟩ <;> simp [BalanceRefused] at he
    | header L' txn hbal hunspent hundrawn h =>
      obtain ⟨w, hw, b, hrow, -⟩ := balance_of_refused h he
      rcases List.mem_append.mp hw with hw | hw
      · exact hout w (List.mem_append_left _ hw) b hrow
      · rw [List.mem_singleton.mp hw] at hrow
        contradiction
    | account L' txn hbal hunspent hundrawn hf h =>
      obtain ⟨before, a, after, b₁, L₁, s, _, _, _, _, hfails⟩ := h.row
      obtain ⟨w, hw, b, hrow, hnot⟩ := balance_of_refused hfails he
      rw [List.mem_singleton.mp hw] at hrow
      cases hrow
      have hzero : bigint 0 = true := by decide
      exact hnot ⟨hzero, le_rfl⟩
    | shortage txn b L₁ hbal hunspent hundrawn hf hlocked h =>
      obtain ⟨before, p, after, -, -, -, rfl⟩ := applyPostings_failure h
      simp [BalanceRefused] at he
    | refused L' txn b L₁ hbal hunspent hundrawn hf hlocked hok h =>
      obtain ⟨w, hw, b', hrow, hnot⟩ := balance_of_refused h he
      rcases mem_staged hok hw with ⟨x, -, rfl⟩ | ⟨a, ha, rfl⟩
      · contradiction
      · cases hrow
        exact hnot (hL.solvent.balance_fits hT (validateBalanced_iff.mp hbal) hlocked hok ha)
  · intro L txn L' hL hreturns
    refine ⟨hL.solvent.posted hreturns.posted, ?_⟩
    rw [hreturns.pending]
    simp

/-- Around its posts no call touches a balance. -/
theorem neutral_solid (hT : T < 2 ^ 63) : Neutral F (Solid F T) (fun e => ¬ BalanceRefused e) where
  sees := fun L s h => ⟨h.solvent, h.pending⟩
  holds := fun L k _ h => ⟨h.solvent, h.pending⟩
  draws := fun L i h => ⟨h.solvent, h.pending⟩
  flushes := by
    intro L h _
    refine ⟨?_, by simp [Session.flushAll]⟩
    rw [Frame.working_flushAll]
    exact h.solvent
  refuses := by
    intro L e h hf he
    obtain ⟨w, hw, b, hrow, -⟩ := balance_of_refused hf he
    have hout := h.pending w hw
    rw [hrow] at hout
    exact hout
  deferred := by
    intro s rows e hd he
    obtain ⟨i, n, rfl⟩ := assertLedgerBalanced_error hd
    simp [BalanceRefused] at he
  stage := by
    intro L w hw h
    refine ⟨?_, ?_⟩
    · rw [Frame.working_stage]
      refine h.solvent.congr ?_
      revert hw
      cases w.row <;> intro hw <;> first | rfl | exact hw.elim
    · intro v hv
      rcases List.mem_append.mp hv with hv | hv
      · exact h.pending v hv
      · rw [List.mem_singleton.mp hv]
        exact hw
  post := post_solid hT
  raises := fun _ h => h

end Sessions

section Claim

variable {ext : Externals} {db : Database} {spent : List Uuid} {σ : State}

/-- Every committed state of a run is solvent. -/
theorem solvent_of_run (hnonneg : ∀ b ∈ db.accountBalances.rows, 0 ≤ b.balance)
    (h : System.Run (program ext) (Starts fun _ => True) (System.initial db spent) σ) :
    Solvent (db.accountBalances.sum AccountBalance.balance) σ.db :=
  (changes_of_run (running_initial db spent) h).2.solvent (solvent_of_rows hnonneg)

/-- No call of a run whose money fits into a balance column is refused a balance. -/
theorem not_balanceRefused_of_run (hnonneg : ∀ b ∈ db.accountBalances.rows, 0 ≤ b.balance)
    (hfits : db.accountBalances.sum AccountBalance.balance < 2 ^ 63)
    (h : System.Run (program ext) (Starts fun _ => True) (System.initial db spent) σ)
    {pid : ℕ} {p : Process backend Call Reply} {e : Exn} (hp : σ.procs pid = some p)
    (he : p.prog = .raise e) : ¬ BalanceRefused e := by
  have h₀ : Running ext (fun _ => True) anyKey (System.initial db spent) := running_initial db spent
  obtain ⟨hrunning, hreach⟩ := reach_of_service (fun _ _ h => h)
    (fun _ _ _ _ => startsAct_of_stepped) skipsOnly_anyKey h₀ h
  refine raised_of_neutral (E := fun e => ¬ BalanceRefused e)
    (fun F => Solid F (db.accountBalances.sum AccountBalance.balance)) ?_ h₀.owned ?_ hreach
    pid p.toHeader e (System.toAtomic_heads hp) ((hrunning.sound.replayed pid p hp).raised e he)
  · intro a head hr
    have hchanges := changes_of_reach (fun _ _ h => h) h₀.owned h₀.calls hr
    refine ⟨neutral_solid hfits, solid_fresh ?_⟩
    exact hchanges.solvent (solvent_of_rows hnonneg)
  · intro pid h e hp
    contradiction

/-- The total of all balances never changes and no balance is negative. If the total
fits into a balance column, every balance that a call writes does, and none is refused. -/
theorem total_money_constant (hnonneg : ∀ b ∈ db.accountBalances.rows, 0 ≤ b.balance)
    (h : System.Run (program ext) (Starts fun _ => True) (System.initial db spent) σ) :
    σ.db.accountBalances.sum AccountBalance.balance =
        db.accountBalances.sum AccountBalance.balance ∧
      (∀ b ∈ σ.db.accountBalances.rows, 0 ≤ b.balance) ∧
      (db.accountBalances.sum AccountBalance.balance ≤ 2 ^ 63 - 1 →
        (∀ b ∈ σ.db.accountBalances.rows, b.balance ≤ 2 ^ 63 - 1) ∧
        ∀ pid p, σ.procs pid = some p →
          (∀ e, p.prog = .raise e → ¬ BalanceRefused e) ∧
          ∀ w ∈ p.session.flushed, ∀ b, w.row = .accountBalance b →
            0 ≤ b.balance ∧ b.balance ≤ 2 ^ 63 - 1) := by
  have hsolvent := solvent_of_run hnonneg h
  have hrow : ∀ b ∈ σ.db.accountBalances.rows, balanceOf σ.db b.accountId = b.balance :=
    fun b hb => balanceOf_of_find (Table.find?_of_mem hb)
  refine ⟨hsolvent.sum_eq, ?_, ?_⟩
  · intro b hb
    rw [← hrow b hb]
    exact hsolvent.nonneg b.accountId
  · intro hfits
    refine ⟨?_, ?_⟩
    · intro b hb
      rw [← hrow b hb]
      exact (hsolvent.le b.accountId).trans hfits
    · intro pid p hp
      refine ⟨fun e he => not_balanceRefused_of_run hnonneg (by omega) h hp he, ?_⟩
      intro w hw b hb
      have hrunning := (changes_of_run (running_initial db spent) h).1
      obtain ⟨s, fl, hv⟩ := accepted_of_replay (hrunning.sound.replayed pid p hp).replay w hw
      rw [hb] at hv
      have hrange := (bigint_of_balance hv).1
      have hnn := nonneg_of_balance hv
      rw [bigint, decide_eq_true_eq] at hrange
      omega

theorem total_money_constant_sample :
    ∃ σ, System.Run (program sampleExternals) (Starts fun _ => True)
        (System.initial sampleDatabase []) σ ∧ balanceOf σ.db 2 = 50 ∧
      σ.db.accountBalances.sum AccountBalance.balance = 100 := by
  obtain ⟨σ, hrun, hpaid⟩ : ∃ σ, System.Run (program sampleExternals) (Starts fun _ => True)
      (System.initial sampleDatabase []) σ ∧ balanceOf σ.db 2 = 50 := by
    refine System.exists_run_of_exec (.start 0 (.create "key" (sampleRequest 3)) ::
      sampleSteps 0 10 62 (.ok ⟨.captured, some "psp", none⟩) 0) ?_ ?_
    · decide +kernel
    · exact starts_sample trivial
  exact ⟨σ, hrun, hpaid, (total_money_constant (by simp [sampleDatabase]) hrun).1⟩

end Claim

end ApexPayments.Service
