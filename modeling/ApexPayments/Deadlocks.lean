import ApexPayments.Changes
import ApexPayments.LockOrder

/-!
Deadlocks on balance rows. A transaction with one posting list locks its balance rows in
ascending order. An expiry makes one posting list for each stale hold, so it is in order only
if the payers of its holds are. Where they are, no processes wait for each other in a circle.
-/
namespace ApexPayments.Service

open Domain Store Ledger Payments RowLocking

section Claim

variable {ext : Externals} {db : Database} {spent : List Uuid} {σ : State}

/-- The accounts whose balance rows the open transaction has locked, in the order in which it
locked them. -/
def lockedBalances (p : Process backend Call Reply) : List Uuid :=
  (p.session.held.filterMap balanceRank).reverse

/-- An expiry goes on to a further hold only if it has locked the payer's balance row already
or the payer comes after all accounts whose rows it has locked. -/
def Upward (σ : State) (l : Label backend Call) : Prop :=
  ∀ pid o p m id next q, l = .run pid o → σ.procs pid = some p → p.call = .expire m →
    p.prog = .lock (.payment id) next → (view σ.db p.session.flushed).payments.find? id = some q →
    q.payerAccount ∈ lockedBalances p ∨ ∀ a ∈ lockedBalances p, a < q.payerAccount

theorem mem_lockedBalances {p : Process backend Call Reply} {a : Uuid} :
    a ∈ lockedBalances p ↔ .accountBalance a ∈ p.session.held := by
  rw [lockedBalances, List.mem_reverse, List.mem_filterMap]
  constructor
  · rintro ⟨k, hk, hrank⟩
    cases k with
    | accountBalance b =>
      cases hrank
      exact hk
    | _ => contradiction
  · intro hk
    exact ⟨_, hk, rfl⟩

theorem orders_orderly (open_ : Prop) : System.Orders (orderly True open_) balanceRank where
  locks _ _ h := h.2 trivial
  executes _ _ h := h trivial
  tries _ h := h.elim

theorem orders_draining : System.Orders draining balanceRank where
  locks _ _ h := h.elim
  executes _ _ h := Or.inl h
  tries k h := by
    obtain ⟨id, rfl⟩ := h
    rfl

theorem finds_of_upward {l : Label backend Call} (h : Upward σ l) :
    System.Finds (orderly True True) (fun c => ∃ m, c = .expire m) σ l := by
  intro pid o p k next row hl hp hcall hprog hrow _ q hq
  subst hq
  obtain ⟨m, hm⟩ := hcall
  have hk : k = .payment q.id := by
    cases k with
    | payment id =>
      obtain ⟨q', hq', hsame⟩ := Option.map_eq_some_iff.mp hrow
      cases hsame
      rw [Table.key_of_find? hq']
    | _ =>
      obtain ⟨q', hq', hsame⟩ := Option.map_eq_some_iff.mp hrow
      contradiction
  subst hk
  obtain ⟨q', hq', hsame⟩ := Option.map_eq_some_iff.mp hrow
  cases hsame
  rcases h pid o p m q.id next q hl hp hm hprog hq' with hmem | hall
  · exact Or.inl (mem_lockedBalances.mp hmem)
  · right
    intro a ha b hb
    cases ha
    exact hall b (List.mem_reverse.mpr hb)

/-- The process has locked its balance rows in order, and will go on to do so. -/
def InOrder (p : Process backend Call Reply) : Prop :=
  System.Orderly balanceRank p ∧ p.session.Ascending balanceRank

/-- Every call but an expiry keeps the order, whatever the others do. -/
theorem inOrder_of_run {ok : State → Label backend Call → Prop}
    (h : System.Run (program ext) ok (System.initial db spent) σ) {pid : ℕ}
    {p : Process backend Call Reply} (hp : σ.procs pid = some p) (hcall : ∀ m, p.call ≠ .expire m) :
    InOrder p := by
  by_cases hdrain : ∃ n, p.call = .drain n
  · have hd := System.disciplined_of_run (D := fun c => ∃ n, c = .drain n) orders_draining.keeps
      (fun c hc => hc.elim fun n hn => hn ▸ obeys_drain ext n)
      (fun _ _ _ _ _ _ _ _ _ _ _ _ _ _ => trivial) h pid p hp hdrain
    exact ⟨⟨draining, orders_draining, hd.obeys⟩, hd.kept⟩
  · have hd := System.disciplined_of_run
      (D := fun c => (∀ n, c ≠ .drain n) ∧ ∀ m, c ≠ .expire m) (orders_orderly False).keeps
      (fun c hc => obeys_program ext hc.1 fun _ hm => absurd hm.choose_spec (hc.2 _))
      (fun _ _ _ _ _ _ _ _ _ _ _ _ _ _ hf => hf.elim) h pid p hp
      ⟨fun n hn => hdrain ⟨n, hn⟩, hcall⟩
    exact ⟨⟨_, orders_orderly False, hd.obeys⟩, hd.kept⟩

theorem inOrder_of_upward (h : System.Run (program ext) Upward (System.initial db spent) σ)
    {pid : ℕ} {p : Process backend Call Reply} (hp : σ.procs pid = some p) : InOrder p := by
  by_cases hexpire : ∃ m, p.call = .expire m
  · have hprogram : ∀ c, (∃ m, c = .expire m) →
        (program ext c).Obeys (orderly True True) Anyhow [] [] := by
      intro c ⟨m, hm⟩
      subst hm
      refine obeys_program ext ?_ fun _ _ => trivial
      intro n hn
      contradiction
    have hd := System.disciplined_of_run (orders_orderly True).keeps hprogram
      (fun σ l => finds_of_upward) h pid p hp hexpire
    exact ⟨⟨_, orders_orderly True, hd.obeys⟩, hd.kept⟩
  · exact inOrder_of_run h hp fun m hm => hexpire ⟨m, hm⟩

theorem lockedBalances_sorted {p : Process backend Call Reply} (h : InOrder p) :
    (lockedBalances p).Pairwise (· < ·) := List.pairwise_reverse.mpr h.2

/-- Every transaction but an expiry locks its balance rows in ascending order of the accounts.
Where expiries go upward they do so too, and no processes wait for each other's balance rows
in a circle. -/
theorem balances_locked_in_order :
    (∀ σ, System.Run (program ext) (fun _ _ => True) (System.initial db spent) σ →
      ∀ pid p, σ.procs pid = some p → (∀ m, p.call ≠ .expire m) →
        (lockedBalances p).Pairwise (· < ·)) ∧
    ∀ σ, System.Run (program ext) Upward (System.initial db spent) σ →
      (∀ pid p, σ.procs pid = some p → (lockedBalances p).Pairwise (· < ·)) ∧
        ∀ pid, ¬ Relation.TransGen (σ.WaitsFor balanceRank) pid pid := by
  refine ⟨?_, ?_⟩
  · intro σ h pid p hp hcall
    exact lockedBalances_sorted (inOrder_of_run h hp hcall)
  · intro σ h
    refine ⟨fun pid p hp => lockedBalances_sorted (inOrder_of_upward h hp), ?_⟩
    exact System.acyclic_of_orderly (System.sound_of_any_run h) fun pid p hp =>
      (inOrder_of_upward h hp).1

section Sample

/-- The accounts 2 and 3 have a balance of 100. -/
def fundedDatabase : Database :=
  { sampleDatabase with accountBalances := ⟨[⟨2, 100, 0⟩, ⟨3, 100, 0⟩], by decide⟩ }

def transferRequest (payer payee : Uuid) : CreatePaymentRequest :=
  { sampleRequest payee with payerAccountId := payer, amount := 10, amount_pos := by decide }

/-- A payment under the key `k`, with the identifiers from `first` on. -/
def paid (pid first n : ℕ) (k : String) (payer payee : Uuid) (outcome : AuthorizationOutcome) :
    List (Label backend Call) :=
  .start pid (.create k (transferRequest payer payee)) ::
    sampleSteps pid first n (.ok ⟨outcome, some "psp", none⟩) 0

/-- The first `n` statements of an expiry of all holds. -/
def expiring (pid n : ℕ) : List (Label backend Call) :=
  .start pid (.expire 0) :: sampleSteps pid 600 n (.error "unused") 1

/-- A test that an expiry goes upward. -/
def upwardCheck (σ : State) (l : Label backend Call) : Bool :=
  match σ.procs l.pid with
  | none => true
  | some p =>
      match p.prog with
      | .lock (.payment id) _ =>
          ((view σ.db p.session.flushed).payments.find? id).all fun q =>
            q.payerAccount ∈ lockedBalances p ∨ ∀ a ∈ lockedBalances p, a < q.payerAccount
      | _ => true

theorem upward_of_check (σ : State) (l : Label backend Call) (h : upwardCheck σ l = true) :
    Upward σ l := by
  intro pid o p m id next q hl hp _ hprog hq
  subst hl
  simp only [upwardCheck, Label.pid, hp, hprog, hq] at h
  simpa using h

/-- The payers of the two holds come in ascending order. -/
theorem balances_locked_in_order_sample :
    ∃ σ, System.Run (program sampleExternals) Upward (System.initial fundedDatabase []) σ ∧
      (σ.procs 2).map lockedBalances = some [1, 2, 3] ∧
      ∀ pid, ¬ Relation.TransGen (σ.WaitsFor balanceRank) pid pid := by
  obtain ⟨σ, hexec, hlocked⟩ : ∃ σ, System.execWith (program sampleExternals) upwardCheck
      (paid 0 10 45 "a" 2 3 .pending ++ (paid 1 200 42 "b" 3 2 .pending ++ expiring 2 40))
      (System.initial fundedDatabase []) = some σ ∧
      (σ.procs 2).map lockedBalances = some [1, 2, 3] := by
    apply Option.map_eq_some_iff.mp
    decide +kernel
  have hrun : System.Run (program sampleExternals) Upward (System.initial fundedDatabase []) σ :=
    System.run_of_execWith upward_of_check hexec
  exact ⟨σ, hrun, hlocked, (balances_locked_in_order.2 σ hrun).2⟩

/-- A settled payment and two holds whose payers come in descending order. -/
def descendingHolds : List (Label backend Call) :=
  paid 0 10 65 "a" 3 2 .captured ++
    (paid 1 200 42 "b" 3 2 .pending ++ paid 2 400 42 "c" 2 3 .pending)

/-- A refund of the settled payment, in the middle of its locks, and an expiry that comes in. -/
def crossing : List (Label backend Call) :=
  .start 4 (.refund "r" 10 ⟨5, by decide⟩) :: sampleSteps 4 800 16 (.error "unused") 1 ++ expiring 3 36

theorem starts_descendingHolds : ∀ l ∈ descendingHolds, ∀ σ, Starts Call.isService σ l :=
  starts_append (starts_sample (P := Call.isService) trivial)
    (starts_append (starts_sample (P := Call.isService) trivial)
      (starts_sample (P := Call.isService) trivial))

theorem waitsFor_of_needs {pid pid' : ℕ} {a : Uuid} (hfree : σ.free pid (.accountBalance a) = false)
    (hneeds : (σ.procs pid).bind (System.needs σ.db) = some (.accountBalance a)) (hne : pid' ≠ pid)
    (hlock : (.accountBalance a, pid') ∈ σ.locks) : σ.WaitsFor balanceRank pid pid' := by
  obtain ⟨p, hp, hneeds⟩ := Option.bind_eq_some_iff.mp hneeds
  exact ⟨.accountBalance a, a, rfl, ⟨hfree, p, hp, hneeds⟩, hne, hlock⟩

/-- An expiry locks the balance rows of the accounts 1, 3 and 2. If a refund has locked the
row of account 2 and needs that of account 3, the two wait for each other. -/
theorem expiry_deadlocks :
    ¬ (∀ (ext : Externals) (db : Database) (spent : List Uuid) (σ : State),
      System.Run (program ext) (Starts Call.isService) (System.initial db spent) σ →
        ∀ pid p, σ.procs pid = some p → (lockedBalances p).Pairwise (· < ·)) ∧
    ¬ ∀ (ext : Externals) (db : Database) (spent : List Uuid) (σ : State),
      System.Run (program ext) (Starts Call.isService) (System.initial db spent) σ →
        ∀ pid, ¬ Relation.TransGen (σ.WaitsFor balanceRank) pid pid := by
  constructor
  · intro hall
    obtain ⟨σ, hexec, hlocked⟩ : ∃ σ, System.exec (program sampleExternals)
        (descendingHolds ++ expiring 3 38) (System.initial fundedDatabase []) = some σ ∧
        (σ.procs 3).map lockedBalances = some [1, 3, 2] := by
      apply Option.map_eq_some_iff.mp
      decide +kernel
    have hrun := System.run_of_exec hexec (starts_append starts_descendingHolds
      (starts_sample (P := Call.isService) trivial))
    obtain ⟨p, hp, hbalances⟩ := Option.map_eq_some_iff.mp hlocked
    have hsorted := hall _ _ _ σ hrun 3 p hp
    rw [hbalances] at hsorted
    revert hsorted
    decide
  · intro hall
    obtain ⟨σ, hexec, hend⟩ : ∃ σ, System.exec (program sampleExternals)
        (descendingHolds ++ crossing) (System.initial fundedDatabase []) = some σ ∧
        (σ.free 3 (.accountBalance 2), σ.free 4 (.accountBalance 3),
          (σ.procs 3).bind (System.needs σ.db), (σ.procs 4).bind (System.needs σ.db),
          decide ((.accountBalance 2, 4) ∈ σ.locks ∧ (.accountBalance 3, 3) ∈ σ.locks)) =
        (false, false, some (.accountBalance 2), some (.accountBalance 3), true) := by
      apply Option.map_eq_some_iff.mp
      decide +kernel
    have hrun := System.run_of_exec hexec (starts_append starts_descendingHolds
      (starts_append (starts_sample (P := Call.isService) trivial)
        (starts_sample (P := Call.isService) trivial)))
    simp only [Prod.mk.injEq, decide_eq_true_eq] at hend
    obtain ⟨hfree₃, hfree₄, hneeds₃, hneeds₄, hlock₄, hlock₃⟩ := hend
    have hexpiry : σ.WaitsFor balanceRank 3 4 := waitsFor_of_needs hfree₃ hneeds₃ (by decide) hlock₄
    have hrefund : σ.WaitsFor balanceRank 4 3 := waitsFor_of_needs hfree₄ hneeds₄ (by decide) hlock₃
    exact hall _ _ _ σ hrun 3 (.tail (.single hexpiry) hrefund)

end Sample

end Claim

end ApexPayments.Service
