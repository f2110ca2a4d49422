import ApexPayments.Posting
import ApexPayments.RowLocking.TwoPhase

/-!
Concurrent posts. Transactions that each run one `LedgerService.post` have the outcome of
some serial order, as long as no post inserts a balance row that another one has committed
since the lookup that missed it.
-/
namespace ApexPayments.Ledger

open Domain Store RowLocking DoubleEntry Service

section Discipline

/-- The keys of balance rows. -/
def balanceKey (k : Key) : Prop := ∃ a, k = .accountBalance a

theorem locksFirst_lockBalances (ids : List Uuid) (b : BalancesMap) :
    (lockBalances ids b).LocksFirst balanceKey true := by
  induction ids generalizing b with
  | nil => exact .pure true b
  | cons a ids ih =>
    refine Prog.LocksFirst.lock (B := backend) (Key.accountBalance a) _
      (Row.accountBalance (zeroBalance a)) (lockBalances ids (Function.update b a (zeroBalance a)))
      ⟨a, rfl⟩ rfl ?_ rfl (ih _)
    intro row
    cases row with
    | accountBalance r => exact ih _
    | _ => exact .stage true _ _ (.flush false _ (ih _))

/-- `post` locks the balance rows that it reads and inserts those that it misses. -/
theorem locksFirst_post (type : TransactionType) (referenceId : Uuid) (ps : List Posting) :
    (post type referenceId ps).LocksFirst balanceKey true := by
  unfold post
  refine Prog.LocksFirst.bind ?_ ?_
  · cases validateBalanced ps with
    | error e => exact Prog.LocksFirst.raise (B := backend) true e
    | ok u => exact .pure true u
  · intro _
    refine .draw false _ fun id => .stage false _ _ (.flush false _ ?_)
    refine (locksFirst_lockBalances _ _).bind fun b => ?_
    refine (Prog.locksFirst_stageRows _).bind fun _ => ?_
    cases (applyPostings id 0 ps b).failure with
    | some e => exact Prog.LocksFirst.raise (B := backend) false e
    | none => exact .flush false _ (.pure true _)

end Discipline

section Growth

/-- The accounts stay as they are and no row is deleted. -/
structure Grown (s t : Database) : Prop where
  accounts : t.accounts = s.accounts
  payments : ∀ id, (s.payments.find? id).isSome → (t.payments.find? id).isSome
  transactions : ∀ id, (s.ledgerTransactions.find? id).isSome →
    (t.ledgerTransactions.find? id).isSome

theorem Grown.refl (s : Database) : Grown s s := ⟨rfl, fun _ h => h, fun _ h => h⟩

theorem Grown.trans {s t u : Database} (h : Grown s t) (h' : Grown t u) : Grown s u where
  accounts := h'.accounts.trans h.accounts
  payments := fun id hs => h'.payments id (h.payments id hs)
  transactions := fun id hs => h'.transactions id (h.transactions id hs)

theorem isSome_put {κ ρ : Type} [DecidableEq κ] {key : ρ → κ} {t t' : Table key} (r : ρ)
    (h : ∀ k, (t.find? k).isSome → (t'.find? k).isSome) (k : κ)
    (hs : ((t.put r).find? k).isSome) : ((t'.put r).find? k).isSome := by
  by_cases hk : k = key r
  · subst hk
    rw [t'.find?_put_self r]
    rfl
  · rw [t.find?_put_of_ne r k hk] at hs
    rw [t'.find?_put_of_ne r k hk]
    exact h k hs

theorem Grown.put {s t : Database} (h : Grown s t) (r : Row) : Grown (s.put r) (t.put r) := by
  cases r with
  | payment p => exact ⟨h.accounts, isSome_put p h.payments, h.transactions⟩
  | ledgerTransaction x => exact ⟨h.accounts, h.payments, isSome_put x h.transactions⟩
  | _ => exact ⟨h.accounts, h.payments, h.transactions⟩

theorem Grown.view {s t : Database} (h : Grown s t) (ws : List (Write backend)) :
    Grown (view s ws) (view t ws) := by
  induction ws generalizing s t with
  | nil => exact h
  | cons w ws ih => exact ih (h.put w.row)

/-- A row that was accepted is accepted later. -/
theorem Grown.violation {s t : Database} (h : Grown s t) {r : Row} (hr : s.violation r = none) :
    t.violation r = none := by
  have hall := (firstFailing_eq_none_iff _).mp hr
  refine (firstFailing_eq_none_iff _).mpr ?_
  have haccount : ∀ a, t.hasAccount a = s.hasAccount a := by
    intro a
    rw [Database.hasAccount, Database.hasAccount, h.accounts]
  cases r with
  | ledgerEntry e =>
    simp only [Database.checks, List.mem_cons, List.not_mem_nil, or_false, forall_eq_or_imp,
      forall_eq, haccount] at hall ⊢
    exact ⟨hall.1, hall.2.1, h.transactions _ hall.2.2.1, hall.2.2.2⟩
  | refund x =>
    simp only [Database.checks, List.mem_cons, List.not_mem_nil, or_false, forall_eq_or_imp,
      forall_eq] at hall ⊢
    exact ⟨hall.1, hall.2.1, h.payments _ hall.2.2⟩
  | _ => simpa only [Database.checks, haccount] using hall

theorem grown_of_posted {s s' : Database} {txn : LedgerTransaction} {ps : List Posting}
    (h : Posted s s' txn ps) : Grown s s' := by
  have helse := h.elsewhere
  unfold SameElsewhere at helse
  refine ⟨(congrArg Database.accounts helse).trans rfl, ?_, ?_⟩
  · intro id hs
    rw [helse]
    exact hs
  · intro id hs
    obtain ⟨t, ht⟩ := Option.isSome_iff_exists.mp hs
    have hmem := (find_txn_posted h t).mpr (Or.inl (Table.mem_of_find? ht))
    have hid : t.id = id := Table.key_of_find? ht
    rw [← hid, Table.find?_of_mem hmem]
    rfl

end Growth

section Requests

/-- A transaction that runs one post of a balanced list. -/
structure PostRequest where
  type : TransactionType
  referenceId : Uuid
  postings : List Posting
  balanced : Balanced postings

def PostRequest.program (c : PostRequest) : Program LedgerTransaction :=
  post c.type c.referenceId c.postings

/-- What concurrent posts run: commit on return, rollback on an exception. -/
def concurrently (c : PostRequest) : Program LedgerTransaction :=
  Prog.inTransaction (B := backend) c.program

abbrev Posters := System backend PostRequest LedgerTransaction

theorem grown_of_request (F : Frame backend) (c : PostRequest) (next : Program LedgerTransaction)
    (L : Session backend) (h : (concurrently c).Runs F (.fresh backend) (.committed next L)) :
    Grown F.hi (view F.hi L.flushed) := by
  have hall : (concurrently c).Ensures F (.fresh backend) (Stop.Commits (fun _ => True)
      fun _ L => Grown F.hi (view F.hi L.flushed)) := by
    refine Prog.Ensures.bind (post_stops c.type c.referenceId c.postings (.fresh backend))
      (fun _ _ _ => trivial) ?_
    intro txn L₁ hreturns
    refine Prog.Ensures.commitAll ?_ fun _ _ _ => trivial
    intro _
    refine ⟨fun _ _ => trivial, fun _ => ?_⟩
    have hgrown := grown_of_posted hreturns.posted
    rw [Frame.working_of_pending L₁ hreturns.pending] at hgrown
    rw [flushAll_nil L₁ hreturns.pending]
    exact hgrown
  exact hall _ h

theorem check_ne_unique (s : Database) (r : Row) (name : String) :
    ∀ c ∈ s.checks r, c.2 ≠ .uniqueViolation name := by
  cases r <;> simp [Database.checks]

/-- Only the insertion of a balance row that is there already is refused for its key. -/
theorem row_of_duplicate {F : Frame backend} {fl ws : List (Write backend)}
    (h : F.FlushFails (Exn.uniqueViolation "account_balances_pkey") fl ws) :
    ∃ before r after, ws = before ++ .insert (.accountBalance r) :: after ∧
      (view F.hi (fl ++ before)).accountBalances.find? r.accountId ≠ none := by
  obtain ⟨before, w, after, rfl, -, hw⟩ := Frame.exists_of_flushFails h
  have hviolation : ∀ row : Row, (view F.hi (fl ++ before)).violation row ≠
      some (.uniqueViolation "account_balances_pkey") := by
    intro row hrow
    obtain ⟨c, hc, he⟩ := mem_of_firstFailing hrow
    exact check_ne_unique _ row _ c hc he
  cases w with
  | update r => exact absurd hw (hviolation r)
  | insert r =>
    simp only [Write.rejected] at hw
    split at hw
    · rename_i hsome
      cases r with
      | accountBalance b =>
        refine ⟨before, b, after, rfl, ?_⟩
        intro hnone
        have hget : (view F.hi (fl ++ before)).get (Row.accountBalance b).key = none :=
          Option.map_eq_none_iff.mpr hnone
        change (Database.get (view F.hi (fl ++ before)) (Row.accountBalance b).key).isSome = true at hsome
        rw [hget] at hsome
        contradiction
      | _ => simp [duplicate] at hw
    · exact absurd hw (hviolation r)

/-- Alone no post is refused a balance row as a duplicate. -/
theorem not_duplicate_alone (c : PostRequest) (s s' : Database) (spent spent' : List Uuid) :
    ¬ Transacts (B := backend) c.program s spent
      (.error (.uniqueViolation "account_balances_pkey")) s' spent' := by
  have hall : (concurrently c).Ensures (.alone s spent) (.fresh backend) (Stop.Commits
      (fun e => e ≠ .uniqueViolation "account_balances_pkey") fun _ _ => True) := by
    refine Prog.Ensures.bind (post_stops c.type c.referenceId c.postings (.fresh backend)) ?_ ?_
    · intro e L' hstops he
      subst he
      cases hstops with
      | invalid h =>
        rw [validateBalanced_iff.mpr c.balanced] at h
        contradiction
      | header L' txn hbal hunspent hundrawn h =>
        obtain ⟨before, r, after, hsplit, -⟩ := row_of_duplicate h
        rcases before with _ | ⟨w, before⟩
        · cases hsplit
        · simp [Session.fresh] at hsplit
      | account L' txn hbal hunspent hundrawn hf h =>
        obtain ⟨ids, a, after, b₁, L₁, t, -, -, hreads, hnone, hfails⟩ := h.row
        obtain rfl := (Frame.alone_sees s t spent).mp hreads.1
        obtain ⟨before, r, rest, hsplit, hsome⟩ := row_of_duplicate hfails
        rcases before with _ | ⟨w, before⟩
        · cases hsplit
          rw [List.append_nil] at hsome
          exact hsome hnone
        · simp at hsplit
      | shortage txn b L₁ hbal hunspent hundrawn hf hlocked h =>
        obtain ⟨before, p, after, -, -, -, he⟩ := applyPostings_failure h
        contradiction
      | refused L' txn b L₁ hbal hunspent hundrawn hf hlocked hok h =>
        obtain ⟨before, r, after, hsplit, -⟩ := row_of_duplicate h
        have hmem : Write.insert (Row.accountBalance r) ∈
            staged (sortedAccountIds c.postings) (applyPostings txn.id 0 c.postings b) := by
          rw [hsplit]
          simp
        rcases mem_staged hok hmem with ⟨x, -, hx⟩ | ⟨a, -, ha⟩
        · cases hx
        · cases ha
    · intro txn L hreturns
      refine Prog.Ensures.commitAll ?_ ?_
      · intro _
        refine ⟨?_, fun _ => trivial⟩
        intro e he
        obtain ⟨i, n, rfl⟩ := assertLedgerBalanced_error he
        exact fun h => by contradiction
      · intro e L' he
        rw [hreturns.pending] at he
        exact he.elim
  intro ht
  cases ht with
  | rolledBack e L h => exact hall _ h rfl

end Requests

section Claim

variable {db : Database} {spent : List Uuid} {σ : Posters}

/-- Every transaction has returned or raised. -/
def Complete (σ : Posters) : Prop := ∀ pid p, σ.procs pid = some p → p.Finished

/-- The results and the final store are those of some serial order of the transactions. -/
def Serializable (db : Database) (spent : List Uuid) (σ : Posters) : Prop :=
  ∃ es, System.InOrder PostRequest.program db spent σ es ∧
    ∀ pid p, σ.procs pid = some p → pid ∈ es.map Prod.fst

/-- No statement is cancelled, and none inserts a balance row that is committed by now. -/
def Uncollided (σ : Posters) (l : Label backend PostRequest) : Prop :=
  ¬ l.isCancel ∧ ¬ System.Collides balanceKey σ l

theorem serializable_of_run
    (h : System.Run concurrently Uncollided (System.initial db spent) σ) (hcomplete : Complete σ) :
    Serializable db spent σ := by
  have hinside : ∀ c : PostRequest, Prog.Inside (B := backend) c.program :=
    fun c => inside_post c.type c.referenceId c.postings
  have hlocks : ∀ c : PostRequest, Prog.LocksFirst (B := backend) balanceKey true c.program :=
    fun c => locksFirst_post c.type c.referenceId c.postings
  have hstable : ∀ (s t : backend.Store) (fl : List (Write backend)) (r : backend.Row), Grown s t →
      backend.violation (view s fl) r = none → backend.violation (view t fl) r = none :=
    fun _ _ fl _ hst hv => (hst.view fl).violation hv
  obtain ⟨es, hes⟩ := System.inOrder_of_run hinside hlocks Grown.refl hstable
    (fun _ _ _ => Grown.trans) grown_of_request h
  refine ⟨es, hes, ?_⟩
  intro pid p hp
  by_contra hnot
  have hwaiting := (hes.waiting pid p hp hnot).2
  rcases hcomplete pid p hp with ⟨v, hv⟩ | ⟨e, he⟩
  · exact hwaiting (.ok v) hv
  · exact hwaiting (.error e) he

/-- No serial order refuses a post a balance row as a duplicate. -/
theorem not_serializable_of_duplicate {pid : ℕ} {p : Process backend PostRequest LedgerTransaction}
    (hp : σ.procs pid = some p)
    (hraise : p.prog = .raise (Exn.uniqueViolation "account_balances_pkey")) :
    ¬ Serializable db spent σ := by
  have hduplicate : p.prog = .raise (backend.duplicate (Row.accountBalance (zeroBalance 0))) := hraise
  intro ⟨es, hes, hall⟩
  refine System.not_inOrder_of_duplicate ?_ hp hduplicate hes (hall pid p hp)
  exact fun c s spent s' spent' => not_duplicate_alone c s s' spent spent'

theorem not_serializable_of_collision {l : Label backend PostRequest} {σ₁ σ₂ : Posters}
    (hl : σ.step concurrently l = some σ₁) (hcancel : ¬ l.isCancel)
    (h : System.Collides balanceKey σ l)
    (h₂ : System.Run concurrently (fun _ l => ¬ l.isCancel) σ₁ σ₂) : ¬ Serializable db spent σ₂ := by
  obtain ⟨r, p, ⟨a, ha⟩, hp, hraise⟩ := System.raised_of_collides hl hcancel h
  have hp₂ := System.procs_of_finished h₂ hp (Or.inr ⟨_, hraise⟩)
  cases r with
  | accountBalance b => exact not_serializable_of_duplicate hp₂ hraise
  | _ => cases ha

/-- Concurrent posts have the outcome of a serial order, provided that no post inserts a
balance row that another transaction has committed since the lookup that missed it. After
such a collision there is no serial order with the same outcome. -/
theorem posts_serializable_iff :
    (∀ σ, System.Run concurrently Uncollided (System.initial db spent) σ → Complete σ →
        Serializable db spent σ) ∧
      ∀ σ l σ₁ σ₂, System.Run concurrently (fun _ l => ¬ l.isCancel) (System.initial db spent) σ →
        ¬ l.isCancel → System.Collides balanceKey σ l → σ.step concurrently l = some σ₁ →
        System.Run concurrently (fun _ l => ¬ l.isCancel) σ₁ σ₂ → ¬ Serializable db spent σ₂ :=
  ⟨fun _ h hcomplete => serializable_of_run h hcomplete,
    fun _ _ _ _ _ hcancel hcollides hl h₂ => not_serializable_of_collision hl hcancel hcollides h₂⟩

section Sample

/-- Accounts 2 and 4 hold 100 each; account 3 has no balance row yet. -/
def payersDatabase : Database :=
  { sampleDatabase with accountBalances := ⟨[⟨2, 100, 0⟩, ⟨4, 100, 0⟩], by decide⟩ }

/-- 30 from an account to account 3. -/
def samplePost (payer : Uuid) : PostRequest where
  type := .payment
  referenceId := 9
  postings := [⟨payer, .debit, 30⟩, ⟨3, .credit, 30⟩]
  balanced := ⟨le_rfl, by simp, by simp [moves, imbalance, signed]⟩

/-- `n` statements of process `pid`, with the identifiers from `first` on. -/
def posterSteps (pid first n : ℕ) : List (Label backend PostRequest) :=
  (List.range n).map fun i => .run pid (sampleOracle (.error "") 0 (first + i))

/-- Process 0 posts up to its `n`-th statement, then process 1 posts, then process 0 takes
`m` statements more. -/
def interleaved (n m : ℕ) : List (Label backend PostRequest) :=
  .start 0 (samplePost 2) :: .start 1 (samplePost 4) ::
    (posterSteps 0 10 n ++ posterSteps 1 100 20 ++ posterSteps 0 200 m)

/-- The identifiers of the interleaving are those of processes 0 and 1. -/
theorem pid_interleaved (n m : ℕ) : ∀ l ∈ interleaved n m, l.pid = 0 ∨ l.pid = 1 := by
  intro l hl
  simp only [interleaved, posterSteps, List.mem_cons, List.mem_append, List.mem_map] at hl
  rcases hl with rfl | rfl | (⟨i, -, rfl⟩ | ⟨i, -, rfl⟩) | ⟨i, -, rfl⟩ <;> simp [Label.pid]

theorem not_isCancel_interleaved (n m : ℕ) : ∀ l ∈ interleaved n m, ¬ l.isCancel := by
  intro l hl
  simp only [interleaved, posterSteps, List.mem_cons, List.mem_append, List.mem_map] at hl
  rcases hl with rfl | rfl | (⟨i, -, rfl⟩ | ⟨i, -, rfl⟩) | ⟨i, -, rfl⟩ <;> simp [Label.isCancel]

/-- How processes 0 and 1 have ended, and the final balance of account 3. -/
def endsOf (σ : Posters) : Option Bool × Option Bool × Option (Option Exn) × ℤ :=
  ((σ.procs 0).map fun p => p.prog.value?.isSome, (σ.procs 1).map fun p => p.prog.value?.isSome,
    (σ.procs 0).map fun p => p.prog.error?, balanceOf σ.db 3)

/-- Every process of an interleaving is 0 or 1. -/
theorem pid_of_interleaved {n m : ℕ}
    (h : System.exec concurrently (interleaved n m) (System.initial payersDatabase []) = some σ)
    {pid : ℕ} {p : Process backend PostRequest LedgerTransaction} (hp : σ.procs pid = some p) :
    pid = 0 ∨ pid = 1 := by
  by_contra hpid
  have hinit : σ.procs pid = none := by
    refine System.procs_of_exec h ?_
    intro l hl heq
    exact hpid (heq ▸ pid_interleaved n m l hl)
  rw [hp] at hinit
  contradiction

/-- Process 1 posts before process 0 looks up the balance row of account 3. -/
theorem posts_serializable_iff_sample :
    ∃ σ, System.Run concurrently Uncollided (System.initial payersDatabase []) σ ∧ Complete σ ∧
      balanceOf σ.db 3 = 60 ∧ Serializable payersDatabase [] σ := by
  obtain ⟨σ, hexec, hends⟩ : ∃ σ, System.exec concurrently (interleaved 5 12)
      (System.initial payersDatabase []) = some σ ∧
      endsOf σ = (some true, some true, some none, 60) := by
    apply Option.map_eq_some_iff.mp
    decide +kernel
  obtain ⟨hfirst, hrest⟩ := Prod.mk.inj hends
  obtain ⟨hsecond, hrest⟩ := Prod.mk.inj hrest
  have hreturned : ∀ pid p, σ.procs pid = some p → ∃ v, p.prog = .pure v := by
    intro pid p hp
    have hvalue : p.prog.value?.isSome = true := by
      rcases pid_of_interleaved hexec hp with rfl | rfl
      · rw [hp] at hfirst
        exact Option.some.inj hfirst
      · rw [hp] at hsecond
        exact Option.some.inj hsecond
    obtain ⟨v, hv⟩ := Option.isSome_iff_exists.mp hvalue
    exact ⟨v, Prog.eq_pure_of_value? hv⟩
  have hunrefused : ∀ pid p r, σ.procs pid = some p → p.prog ≠ .raise (duplicate r) := by
    intro pid p r hp he
    obtain ⟨v, hv⟩ := hreturned pid p hp
    rw [hv] at he
    contradiction
  have hrun : System.Run concurrently Uncollided (System.initial payersDatabase []) σ :=
    System.uncollided_of_unrefused (fun _ _ h => h)
      (System.run_of_exec hexec fun l hl _ => not_isCancel_interleaved 5 12 l hl) hunrefused
  have hcomplete : Complete σ := fun pid p hp => Or.inl (hreturned pid p hp)
  exact ⟨σ, hrun, hcomplete, (Prod.mk.inj hrest).2, posts_serializable_iff.1 σ hrun hcomplete⟩

/-- Process 1 posts after process 0 has missed the balance row of account 3 and before it
inserts one. -/
theorem concurrent_posts_not_serializable :
    ¬ ∀ (db : Database) (spent : List Uuid) (σ : Posters),
      System.Run concurrently (fun _ l => ¬ l.isCancel) (System.initial db spent) σ →
      Complete σ → Serializable db spent σ := by
  intro hall
  obtain ⟨σ, hexec, hends⟩ : ∃ σ, System.exec concurrently (interleaved 6 2)
      (System.initial payersDatabase []) = some σ ∧
      endsOf σ = (some false, some true,
        some (some (.uniqueViolation "account_balances_pkey")), 30) := by
    apply Option.map_eq_some_iff.mp
    decide +kernel
  obtain ⟨-, hrest⟩ := Prod.mk.inj hends
  obtain ⟨hsecond, hrest⟩ := Prod.mk.inj hrest
  obtain ⟨herror, -⟩ := Prod.mk.inj hrest
  obtain ⟨p, hp, he⟩ := Option.map_eq_some_iff.mp herror
  have hraise := Prog.eq_raise_of_error? he
  have hcomplete : Complete σ := by
    intro pid q hq
    rcases pid_of_interleaved hexec hq with rfl | rfl
    · obtain rfl := Option.some.inj (hp.symm.trans hq)
      exact Or.inr ⟨_, hraise⟩
    · rw [hq] at hsecond
      obtain ⟨v, hv⟩ := Option.isSome_iff_exists.mp (Option.some.inj hsecond)
      exact Or.inl ⟨v, Prog.eq_pure_of_value? hv⟩
  have hrun := System.run_of_exec hexec fun l hl _ => not_isCancel_interleaved 6 2 l hl
  exact not_serializable_of_duplicate hp hraise (hall payersDatabase [] σ hrun hcomplete)

end Sample

end Claim

end ApexPayments.Ledger
