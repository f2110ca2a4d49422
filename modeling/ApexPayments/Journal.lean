import ApexPayments.Rules

/-!
What `LedgerService.post` does to the tables. `Posted` is the effect of one ledger
transaction, stated in terms of double-entry moves, and `post_ensures` shows that a
call of `post` which returns has exactly this effect.
-/
namespace ApexPayments.Ledger

open Domain Store RowLocking DoubleEntry

section Moves

/-- What a posting adds to the balance of its account. -/
def signed (p : Posting) : ℤ :=
  match p.direction with
  | .debit => -p.amount
  | .credit => p.amount

def moves (postings : List Posting) : List (Uuid × ℤ) :=
  postings.map fun p => (p.accountId, signed p)

theorem netAmount_ok {ps : List Posting} {n m : ℤ} (h : netAmount ps n = .ok m) :
    (∀ p ∈ ps, 0 < p.amount) ∧ m = n - imbalance (moves ps) := by
  induction ps generalizing n with
  | nil =>
    cases h
    simp [moves, imbalance]
  | cons p ps ih =>
    simp only [netAmount] at h
    split at h
    · contradiction
    · rename_i hp
      have hcons : imbalance (moves (p :: ps)) = signed p + imbalance (moves ps) := rfl
      split at h <;> rename_i hd <;> obtain ⟨hpos, rfl⟩ := ih h <;>
        refine ⟨fun q hq => ?_, ?_⟩
      · rcases List.mem_cons.mp hq with rfl | hq
        · omega
        · exact hpos q hq
      · rw [hcons, signed, hd]
        ring
      · rcases List.mem_cons.mp hq with rfl | hq
        · omega
        · exact hpos q hq
      · rw [hcons, signed, hd]
        ring

/-- A validated posting list has two postings or more, all positive, that cancel out. -/
theorem validateBalanced_ok {ps : List Posting} (h : validateBalanced ps = .ok ()) :
    2 ≤ ps.length ∧ (∀ p ∈ ps, 0 < p.amount) ∧ imbalance (moves ps) = 0 := by
  unfold validateBalanced at h
  split at h
  · contradiction
  · split at h
    · contradiction
    · rename_i hlen m hm
      split at h
      · contradiction
      · obtain ⟨hpos, rfl⟩ := netAmount_ok hm
        exact ⟨by omega, hpos, by omega⟩

end Moves

section Loop

def entriesOf (transactionId : Uuid) : ℕ → List Posting → List LedgerEntry
  | _, [] => []
  | line, p :: ps => entryOf transactionId line p :: entriesOf transactionId (line + 1) ps

theorem transactionId_of_mem_entriesOf {id : Uuid} {line : ℕ} {ps : List Posting}
    {e : LedgerEntry} (h : e ∈ entriesOf id line ps) : e.transactionId = id := by
  induction ps generalizing line with
  | nil => simp [entriesOf] at h
  | cons p ps ih =>
    rcases List.mem_cons.mp h with rfl | h
    · rfl
    · exact ih h

theorem exists_entry (id : Uuid) (line : ℕ) {ps : List Posting} {p : Posting} (h : p ∈ ps) :
    ∃ e ∈ entriesOf id line ps, e.accountId = p.accountId ∧ e.amount = p.amount := by
  induction ps generalizing line with
  | nil => simp at h
  | cons q ps ih =>
    rcases List.mem_cons.mp h with rfl | h
    · exact ⟨_, List.mem_cons_self .., rfl, rfl⟩
    · obtain ⟨e, he, ha⟩ := ih (line + 1) h
      exact ⟨e, List.mem_cons_of_mem _ he, ha⟩

theorem applyPosting_ok {b b' : BalancesMap} {p : Posting} (h : applyPosting b p = .ok b') :
    ∀ a, (b' a).accountId = (b a).accountId ∧
      (b' a).balance = (b a).balance + if p.accountId = a then signed p else 0 := by
  intro a
  simp only [applyPosting] at h
  split at h
  · rename_i hd
    split at h
    · contradiction
    · cases h
      by_cases ha : a = p.accountId
      · subst ha
        simp [signed, hd, sub_eq_add_neg]
      · simp [Function.update_of_ne ha, Ne.symm ha]
  · rename_i hd
    cases h
    by_cases ha : a = p.accountId
    · subst ha
      simp [signed, hd]
    · simp [Function.update_of_ne ha, Ne.symm ha]

theorem net_moves_cons (p : Posting) (ps : List Posting) (a : Uuid) :
    net (moves (p :: ps)) a = (if p.accountId = a then signed p else 0) + net (moves ps) a :=
  net_cons _ _ _

/-- A loop that runs to its end adds every posting to its account. -/
theorem applyPostings_ok {id : Uuid} {n : ℕ} {ps : List Posting} {b : BalancesMap}
    (h : (applyPostings id n ps b).failure = none) :
    (applyPostings id n ps b).entries = entriesOf id n ps ∧
      ∀ a, ((applyPostings id n ps b).balances a).accountId = (b a).accountId ∧
        ((applyPostings id n ps b).balances a).balance = (b a).balance + net (moves ps) a := by
  induction ps generalizing n b with
  | nil => simp [applyPostings, entriesOf, moves, net_nil]
  | cons p ps ih =>
    simp only [applyPostings] at h ⊢
    split at h
    · contradiction
    · rename_i b' hb
      obtain ⟨hentries, hbal⟩ := ih h
      simp only [hentries, entriesOf, true_and]
      intro a
      obtain ⟨hid, hval⟩ := applyPosting_ok hb a
      rw [(hbal a).1, (hbal a).2, hid, hval, net_moves_cons]
      exact ⟨rfl, by ring⟩

theorem applyPosting_version {b b' : BalancesMap} {p : Posting} (h : applyPosting b p = .ok b')
    (a : Uuid) : (b' a).version = (b a).version + if p.accountId = a then 1 else 0 := by
  simp only [applyPosting] at h
  split at h
  · split at h
    · contradiction
    · cases h
      by_cases ha : a = p.accountId
      · subst ha
        simp
      · simp [Function.update_of_ne ha, Ne.symm ha]
  · cases h
    by_cases ha : a = p.accountId
    · subst ha
      simp
    · simp [Function.update_of_ne ha, Ne.symm ha]

/-- How many of the postings name the account. -/
def uses (ps : List Posting) (a : Uuid) : ℕ := (ps.map Posting.accountId).count a

theorem uses_cons (p : Posting) (ps : List Posting) (a : Uuid) :
    uses (p :: ps) a = (if p.accountId = a then 1 else 0) + uses ps a := by
  simp [uses, List.count_cons, add_comm]

/-- Every posting raises the version of its account. -/
theorem applyPostings_version {id : Uuid} {n : ℕ} {ps : List Posting} {b : BalancesMap}
    (h : (applyPostings id n ps b).failure = none) (a : Uuid) :
    ((applyPostings id n ps b).balances a).version = (b a).version + uses ps a := by
  induction ps generalizing n b with
  | nil => simp [applyPostings, uses]
  | cons p ps ih =>
    simp only [applyPostings] at h ⊢
    split at h
    · contradiction
    · rename_i b' hb
      rw [ih h, applyPosting_version hb a, uses_cons]
      push_cast
      ring

/-- The posting at which an account could not cover its debit. -/
def Shortage (balance : Uuid → ℤ) (ps : List Posting) (e : Exn) : Prop :=
  ∃ before p after, ps = before ++ p :: after ∧ p.direction = .debit ∧
    balance p.accountId + net (moves before) p.accountId < p.amount ∧
    e = .insufficientFunds p.accountId
      (balance p.accountId + net (moves before) p.accountId) p.amount

theorem applyPostings_failure {id : Uuid} {n : ℕ} {ps : List Posting} {b : BalancesMap} {e : Exn}
    (h : (applyPostings id n ps b).failure = some e) :
    Shortage (fun a => (b a).balance) ps e := by
  induction ps generalizing n b with
  | nil => contradiction
  | cons p ps ih =>
    simp only [applyPostings] at h
    split at h
    · rename_i e' he
      cases h
      simp only [applyPosting] at he
      split at he
      · rename_i hd
        split at he
        · rename_i hlt
          cases he
          refine ⟨[], p, ps, rfl, hd, ?_, ?_⟩ <;> simp [moves, net_nil, hlt]
        · contradiction
      · contradiction
    · rename_i b' hb
      obtain ⟨before, q, after, rfl, hd, hlt, rfl⟩ := ih h
      have hsum : (b q.accountId).balance + net (moves (p :: before)) q.accountId =
          (b' q.accountId).balance + net (moves before) q.accountId := by
        rw [net_moves_cons, (applyPosting_ok hb q.accountId).2, add_assoc]
      refine ⟨p :: before, q, after, rfl, hd, hsum.trans_lt hlt, ?_⟩
      exact congrArg (Exn.insufficientFunds q.accountId · q.amount) hsum.symm

/-- A loop that runs to its end covers every debit. -/
theorem applyPostings_covered {id : Uuid} {n : ℕ} {ps : List Posting} {b : BalancesMap}
    (h : (applyPostings id n ps b).failure = none) (e : Exn) :
    ¬ Shortage (fun a => (b a).balance) ps e := by
  rintro ⟨before, p, after, rfl, hd, hlt, -⟩
  induction before generalizing n b with
  | nil =>
    rw [moves, List.map_nil, net_nil, add_zero] at hlt
    simp only [List.nil_append, applyPostings, applyPosting, hd] at h
    rw [if_pos hlt] at h
    contradiction
  | cons q before ih =>
    simp only [List.cons_append, applyPostings] at h
    split at h
    · contradiction
    · rename_i b' hb
      refine ih h ?_
      rw [net_moves_cons, ← add_assoc, ← (applyPosting_ok hb p.accountId).2] at hlt
      exact hlt

end Loop

section Tables

/-- The balance of an account; 0 without a row. -/
def balanceOf (s : Database) (a : Uuid) : ℤ :=
  ((s.accountBalances.find? a).map AccountBalance.balance).getD 0

/-- The version of a balance row; 0 without a row. -/
def versionOf (s : Database) (a : Uuid) : ℤ :=
  ((s.accountBalances.find? a).map AccountBalance.version).getD 0

/-- Rows of the ledger tables, where transaction and entries belong to `id`. -/
def LedgerRow (id : Uuid) : Row → Prop
  | .accountBalance _ => True
  | .ledgerTransaction t => t.id = id
  | .ledgerEntry e => e.transactionId = id
  | _ => False

/-- Every table outside the ledger is the same in both stores. -/
def SameElsewhere (s s' : Database) : Prop :=
  s' = { s with
    ledgerTransactions := s'.ledgerTransactions
    ledgerEntries := s'.ledgerEntries
    accountBalances := s'.accountBalances }

theorem SameElsewhere.trans {s t u : Database} (h : SameElsewhere s t) (h' : SameElsewhere t u) :
    SameElsewhere s u := by
  unfold SameElsewhere at h h' ⊢
  rw [h'] at *
  rw [h]

theorem view_ledger {id : Uuid} (ws : List (Write backend))
    (h : ∀ w ∈ ws, LedgerRow id w.row) (s : Database) : SameElsewhere s (view s ws) := by
  induction ws generalizing s with
  | nil => rfl
  | cons w ws ih =>
    have hput : SameElsewhere s (s.put w.row) := by
      have hw := h w (List.mem_cons_self ..)
      revert hw
      cases w.row <;> intro hw <;> first | rfl | exact hw.elim
    exact hput.trans (ih (fun v hv => h v (List.mem_cons_of_mem _ hv)) _)

def insertEntries (es : List LedgerEntry) : List (Write backend) :=
  es.map fun e => .insert (.ledgerEntry e)

def updateBalances (ids : List Uuid) (b : BalancesMap) : List (Write backend) :=
  ids.map fun a => .update (.accountBalance (b a))

/-- Entries that could all be inserted go to the end of the journal. -/
theorem view_insertEntries {F : Frame backend} {fl ws : List (Write backend)}
    (es : List LedgerEntry) (h : F.Flushes fl (insertEntries es ++ ws)) :
    view (view F.hi fl) (insertEntries es) =
        { view F.hi fl with
          ledgerEntries := (view (view F.hi fl) (insertEntries es)).ledgerEntries } ∧
      (view (view F.hi fl) (insertEntries es)).ledgerEntries.rows =
        (view F.hi fl).ledgerEntries.rows ++ es := by
  induction es generalizing fl with
  | nil => exact ⟨rfl, (List.append_nil _).symm⟩
  | cons e es ih =>
    have hfresh : (view F.hi fl).get (.ledgerEntry e.transactionId e.line) = none := h.1.1 _ rfl
    have hput : ((view F.hi fl).put (.ledgerEntry e)).ledgerEntries.rows =
        (view F.hi fl).ledgerEntries.rows ++ [e] :=
      Table.rows_put_new _ _ (Option.map_eq_none_iff.mp hfresh)
    have hview : view F.hi (fl ++ [.insert (.ledgerEntry e)]) =
        (view F.hi fl).put (.ledgerEntry e) := view_append _ _ _
    obtain ⟨hrest, hrows⟩ := ih h.2
    rw [hview] at hrest hrows
    constructor
    · change view ((view F.hi fl).put (.ledgerEntry e)) (insertEntries es) = _
      rw [hrest]
      rfl
    · change (view ((view F.hi fl).put (.ledgerEntry e)) (insertEntries es)).ledgerEntries.rows = _
      rw [hrows, hput, List.append_assoc]
      rfl

theorem view_updateBalances (ids : List Uuid) (b : BalancesMap) (s : Database)
    (hb : ∀ a ∈ ids, (b a).accountId = a) :
    view s (updateBalances ids b) =
        { s with accountBalances := (view s (updateBalances ids b)).accountBalances } ∧
      ∀ a, (view s (updateBalances ids b)).accountBalances.find? a =
        if a ∈ ids then some (b a) else s.accountBalances.find? a := by
  induction ids generalizing s with
  | nil => exact ⟨rfl, fun a => rfl⟩
  | cons a ids ih =>
    obtain ⟨hrest, hfind⟩ := ih (s.put (.accountBalance (b a)))
      fun x hx => hb x (List.mem_cons_of_mem _ hx)
    have hid : (b a).accountId = a := hb a (List.mem_cons_self ..)
    constructor
    · change view (s.put (.accountBalance (b a))) (updateBalances ids b) = _
      rw [hrest]
      rfl
    · intro x
      change (view (s.put (.accountBalance (b a))) (updateBalances ids b)).accountBalances.find? x = _
      rw [hfind]
      by_cases hx : x ∈ ids
      · simp [hx]
      · by_cases hxa : x = a
        · subst hxa
          have hself := s.accountBalances.find?_put_self (b x)
          rw [hid] at hself
          rw [if_neg hx, if_pos (List.mem_cons_self ..)]
          exact hself
        · have hne := s.accountBalances.find?_put_of_ne (b a) x (by rw [hid]; exact hxa)
          rw [if_neg hx, if_neg (by simp [hx, hxa])]
          exact hne

end Tables

section Locks

variable {F : Frame backend}

/-- What the lock loop leaves: its map holds the current rows of the accounts, and
only rows with balance 0 are new. -/
structure Locked (F : Frame backend) (ids : List Uuid) (b b' : BalancesMap)
    (L L' : Session backend) : Prop where
  pending : L'.pending = []
  drawn : L'.drawn = L.drawn
  writes : ∃ ws, L'.flushed = L.flushed ++ ws ∧
    ∀ w ∈ ws, ∃ a, w = .insert (.accountBalance (zeroBalance a))
  rest : F.working L' =
    { F.working L with accountBalances := (F.working L').accountBalances }
  rows : ∀ a ∈ ids, (F.working L').accountBalances.find? a = some (b' a)
  others : ∀ a, a ∉ ids → b' a = b a
  kept : ∀ a, a ∉ ids →
    (F.working L').accountBalances.find? a = (F.working L).accountBalances.find? a
  balance : ∀ a, balanceOf (F.working L') a = balanceOf (F.working L) a
  version : ∀ a, versionOf (F.working L') a = versionOf (F.working L) a

/-- Nothing is locked yet. -/
theorem Locked.nil {b : BalancesMap} {L : Session backend} (hp : L.pending = []) :
    Locked F [] b b L L :=
  ⟨hp, rfl, ⟨[], by simp⟩, rfl, by simp, fun _ _ => rfl, fun _ _ => rfl, fun _ => rfl, fun _ => rfl⟩

/-- One account more in front of the loop. -/
theorem Locked.cons {a : Uuid} {ids : List Uuid} {b b' : BalancesMap} {row : AccountBalance}
    {L L₁ L' : Session backend} (h : Locked F ids (Function.update b a row) b' L₁ L')
    (hdrawn : L₁.drawn = L.drawn)
    (hwrites : ∃ ws, L₁.flushed = L.flushed ++ ws ∧
      ∀ w ∈ ws, ∃ a, w = .insert (.accountBalance (zeroBalance a)))
    (hrest : F.working L₁ =
      { F.working L with accountBalances := (F.working L₁).accountBalances })
    (hrow : (F.working L₁).accountBalances.find? a = some row)
    (hkept : ∀ x, x ≠ a →
      (F.working L₁).accountBalances.find? x = (F.working L).accountBalances.find? x)
    (hbalance : ∀ x, balanceOf (F.working L₁) x = balanceOf (F.working L) x)
    (hversion : ∀ x, versionOf (F.working L₁) x = versionOf (F.working L) x) :
    Locked F (a :: ids) b b' L L' where
  pending := h.pending
  drawn := h.drawn.trans hdrawn
  writes := by
    obtain ⟨ws₁, he₁, hw₁⟩ := hwrites
    obtain ⟨ws₂, he₂, hw₂⟩ := h.writes
    refine ⟨ws₁ ++ ws₂, by rw [he₂, he₁, List.append_assoc], ?_⟩
    intro w hw
    rcases List.mem_append.mp hw with hw | hw
    · exact hw₁ w hw
    · exact hw₂ w hw
  rest := by
    rw [h.rest, hrest]
  rows := by
    intro x hx
    by_cases hmem : x ∈ ids
    · exact h.rows x hmem
    · have hxa : x = a := (List.mem_cons.mp hx).resolve_right hmem
      subst hxa
      rw [h.kept x hmem, hrow, h.others x hmem, Function.update_self]
  others := by
    intro x hx
    rw [List.mem_cons, not_or] at hx
    rw [h.others x hx.2, Function.update_of_ne hx.1]
  kept := by
    intro x hx
    rw [List.mem_cons, not_or] at hx
    rw [h.kept x hx.2, hkept x hx.1]
  balance := fun x => (h.balance x).trans (hbalance x)
  version := fun x => (h.version x).trans (hversion x)

/-- A new row with balance and version 0 is what its absence stands for. -/
theorem find_put_zero (s : Database) (a : Uuid) (h : s.accountBalances.find? a = none)
    (f : AccountBalance → ℤ) (hf : f (zeroBalance a) = 0) (x : Uuid) :
    (((s.put (.accountBalance (zeroBalance a))).accountBalances.find? x).map f).getD 0 =
      ((s.accountBalances.find? x).map f).getD 0 := by
  change ((((s.accountBalances.put (zeroBalance a)).find? x).map f).getD 0) = _
  by_cases hx : x = a
  · subst hx
    have hself := s.accountBalances.find?_put_self (zeroBalance x)
    rw [show (zeroBalance x).accountId = x from rfl] at hself
    rw [hself, h, Option.map_some, hf]
    rfl
  · rw [s.accountBalances.find?_put_of_ne (zeroBalance a) x hx]

/-- The row of `a` is locked in front of the others. -/
theorem Locked.row {a : Uuid} {ids : List Uuid} {b b' : BalancesMap} {r : AccountBalance}
    {L L' : Session backend} (hp : L.pending = [])
    (hr : (view F.hi L.flushed).accountBalances.find? a = some r)
    (h : Locked F ids (Function.update b a r) b' (L.hold (.accountBalance a)) L') :
    Locked F (a :: ids) b b' L L' := by
  have hrow : (F.working L).accountBalances.find? a = some r := by
    rw [Frame.working_of_pending L hp]
    exact hr
  exact h.cons rfl ⟨[], by simp [Session.hold]⟩ rfl hrow (fun _ _ => rfl) (fun _ => rfl) fun _ => rfl

/-- The session that has created the row of `a`. -/
def created (L : Session backend) (s : Database) (a : Uuid) : Session backend :=
  ((L.see s).stage (.insert (.accountBalance (zeroBalance a)))).flushAll

/-- The row of `a` is created in front of the others. -/
theorem Locked.created {a : Uuid} {ids : List Uuid} {b b' : BalancesMap} {s : Database}
    {L L' : Session backend} (hp : L.pending = [])
    (hf : F.Flushes L.flushed [.insert (.accountBalance (zeroBalance a))])
    (h : Locked F ids (Function.update b a (zeroBalance a)) b' (created L s a) L') :
    Locked F (a :: ids) b b' L L' := by
  have hfl : (Ledger.created L s a).flushed =
      L.flushed ++ [.insert (.accountBalance (zeroBalance a))] := by
    change L.flushed ++ (L.pending ++ _) = _
    rw [hp]
    rfl
  have hwork : F.working (Ledger.created L s a) =
      (F.working L).put (.accountBalance (zeroBalance a)) := by
    rw [Ledger.created, Frame.working_flushAll, Frame.working_stage]
    rfl
  have hfresh : (F.working L).accountBalances.find? a = none := by
    rw [Frame.working_of_pending L hp]
    exact Option.map_eq_none_iff.mp (Frame.fresh_of_flushes hf)
  refine h.cons rfl ⟨_, hfl, by simp⟩ ?_ ?_ ?_ ?_ ?_
  · rw [hwork]
    rfl
  · rw [hwork]
    exact Table.find?_put_self _ (zeroBalance a)
  · intro x hx
    rw [hwork]
    exact Table.find?_put_of_ne _ (zeroBalance a) x hx
  · intro x
    rw [hwork]
    exact find_put_zero _ a hfresh AccountBalance.balance rfl x
  · intro x
    rw [hwork]
    exact find_put_zero _ a hfresh AccountBalance.version rfl x

/-- Why the lock loop can raise: the database refuses the new row of an account
without one. -/
structure LockFails (F : Frame backend) (ids : List Uuid) (b : BalancesMap)
    (L : Session backend) (e : Exn) : Prop where
  row : ∃ before a after b₁ L₁ s, ids = before ++ a :: after ∧ Locked F before b b₁ L L₁ ∧
    F.Reads L₁ s ∧ (view s L₁.flushed).accountBalances.find? a = none ∧
    F.FlushFails e L₁.flushed [.insert (.accountBalance (zeroBalance a))]

theorem lockBalances_ensures (ids : List Uuid) (b : BalancesMap) (L : Session backend)
    (hp : L.pending = []) :
    (lockBalances ids b).Ensures F L (Stop.Ends (fun e _ => LockFails F ids b L e)
      fun b' L' => Locked F ids b b' L L') := by
  induction ids generalizing b L with
  | nil => exact Prog.Ensures.pure (Locked.nil hp)
  | cons a ids ih =>
    unfold lockBalances
    refine ensures_lockBalance ?_ ?_
    · intro s hs hnone
      have hpend : ((L.see s).stage (.insert (.accountBalance (zeroBalance a)))).pending =
          [.insert (.accountBalance (zeroBalance a))] := by
        change L.pending ++ _ = _
        rw [hp]
        rfl
      refine ensures_add (ensures_flush ?_ ?_)
      · rw [hpend]
        intro hf
        refine (ih (Function.update b a (zeroBalance a)) (created L s a) rfl).ends ?_ ?_
        · rintro e _ ⟨before, x, after, b₁, L₁, t, rfl, hlocked, hrest⟩
          exact ⟨a :: before, x, after, b₁, L₁, t, rfl, hlocked.created hp hf, hrest⟩
        · exact fun b' L' h => h.created hp hf
      · rw [hpend]
        intro e _ he
        exact ⟨[], a, ids, b, L, s, rfl, Locked.nil hp, hs, hnone, he⟩
    · intro r hr
      refine (ih (Function.update b a r) (L.hold (.accountBalance a)) hp).ends ?_ ?_
      · rintro e _ ⟨before, x, after, b₁, L₁, t, rfl, hlocked, hrest⟩
        exact ⟨a :: before, x, after, b₁, L₁, t, rfl, hlocked.row hp hr, hrest⟩
      · exact fun b' L' h => h.row hp hr

end Locks

section Post

variable {F : Frame backend}

/-- The effect of one ledger transaction on the tables. -/
structure Posted (s s' : Database) (txn : LedgerTransaction) (postings : List Posting) : Prop where
  balanced : validateBalanced postings = .ok ()
  fresh : s.ledgerTransactions.find? txn.id = none
  txns : s'.ledgerTransactions.rows = s.ledgerTransactions.rows ++ [txn]
  entries : s'.ledgerEntries.rows = s.ledgerEntries.rows ++ entriesOf txn.id 0 postings
  balance : ∀ a, balanceOf s' a = balanceOf s a + net (moves postings) a
  version : ∀ a, versionOf s' a = versionOf s a + uses postings a
  present : ∀ p ∈ postings, (s'.accountBalances.find? p.accountId).isSome
  kept : ∀ a, a ∉ postings.map Posting.accountId →
    s'.accountBalances.find? a = s.accountBalances.find? a
  nonneg : ∀ p ∈ postings, 0 ≤ balanceOf s' p.accountId
  covered : ∀ e, ¬ Shortage (balanceOf s) postings e
  inRange : ∀ p ∈ postings, bigint p.amount = true ∧
    bigint (balanceOf s' p.accountId) = true ∧ bigint (versionOf s' p.accountId) = true
  elsewhere : SameElsewhere s s'

/-- A call of `post` that returned. -/
structure PostReturns (F : Frame backend) (type : TransactionType) (referenceId : Uuid)
    (postings : List Posting) (L : Session backend) (txn : LedgerTransaction)
    (L' : Session backend) : Prop where
  posted : Posted (F.working L) (F.working L') txn postings
  type : txn.type = type
  reference : txn.referenceId = referenceId
  pending : L'.pending = []
  unspent : txn.id ∉ F.spent
  undrawn : txn.id ∉ L.drawn
  drawn : L'.drawn = txn.id :: L.drawn
  earlier : F.Flushes L.flushed L.pending
  writes : ∃ ws, L'.flushed = L.flushed ++ L.pending ++ ws ∧ ∀ w ∈ ws, LedgerRow txn.id w.row
  accounts : ∀ p ∈ postings, ∃ s, F.Sees s ∧ s.hasAccount p.accountId = true

/-- The session in which `post` has written the row of its transaction. -/
def headed (L : Session backend) (txn : LedgerTransaction) : Session backend :=
  ((L.draw txn.id).stage (.insert (.ledgerTransaction txn))).flushAll

/-- The session in which the posting loop has ended. -/
def looped (L : Session backend) (txn : LedgerTransaction) (postings : List Posting)
    (b : BalancesMap) : Session backend :=
  L.stageAll (staged (sortedAccountIds postings) (applyPostings txn.id 0 postings b))

/-- Where a call of `post` has raised, and in which session where that is not rolled
back by the database. -/
inductive PostStops (F : Frame backend) (type : TransactionType) (referenceId : Uuid)
    (postings : List Posting) (L : Session backend) : Exn → Session backend → Prop
  | invalid (e : Exn) (h : validateBalanced postings = .error e) :
      PostStops F type referenceId postings L e L
  | header (e : Exn) (L' : Session backend) (txn : LedgerTransaction)
      (hbal : validateBalanced postings = .ok ()) (hunspent : txn.id ∉ F.spent)
      (hundrawn : txn.id ∉ L.drawn)
      (h : F.FlushFails e L.flushed (L.pending ++ [.insert (.ledgerTransaction txn)])) :
      PostStops F type referenceId postings L e L'
  | account (e : Exn) (L' : Session backend) (txn : LedgerTransaction)
      (hbal : validateBalanced postings = .ok ()) (hunspent : txn.id ∉ F.spent)
      (hundrawn : txn.id ∉ L.drawn)
      (hf : F.Flushes L.flushed (L.pending ++ [.insert (.ledgerTransaction txn)]))
      (h : LockFails F (sortedAccountIds postings) zeroBalance (headed L txn) e) :
      PostStops F type referenceId postings L e L'
  | shortage (e : Exn) (txn : LedgerTransaction) (b : BalancesMap) (L₁ : Session backend)
      (hbal : validateBalanced postings = .ok ()) (hunspent : txn.id ∉ F.spent)
      (hundrawn : txn.id ∉ L.drawn)
      (hf : F.Flushes L.flushed (L.pending ++ [.insert (.ledgerTransaction txn)]))
      (hlocked : Locked F (sortedAccountIds postings) zeroBalance b (headed L txn) L₁)
      (h : (applyPostings txn.id 0 postings b).failure = some e) :
      PostStops F type referenceId postings L e (looped L₁ txn postings b)
  | refused (e : Exn) (L' : Session backend) (txn : LedgerTransaction) (b : BalancesMap)
      (L₁ : Session backend)
      (hbal : validateBalanced postings = .ok ()) (hunspent : txn.id ∉ F.spent)
      (hundrawn : txn.id ∉ L.drawn)
      (hf : F.Flushes L.flushed (L.pending ++ [.insert (.ledgerTransaction txn)]))
      (hlocked : Locked F (sortedAccountIds postings) zeroBalance b (headed L txn) L₁)
      (hok : (applyPostings txn.id 0 postings b).failure = none)
      (h : F.FlushFails e L₁.flushed
        (staged (sortedAccountIds postings) (applyPostings txn.id 0 postings b))) :
      PostStops F type referenceId postings L e L'

/-- Why a call of `post` can raise. -/
def PostRaises (F : Frame backend) (postings : List Posting) (L : Session backend) (e : Exn) :
    Prop :=
  validateBalanced postings = .error e ∨ Refused e ∨
    Shortage (balanceOf (F.working L)) postings e

theorem mem_sortedAccountIds (postings : List Posting) (a : Uuid) :
    a ∈ sortedAccountIds postings ↔ a ∈ postings.map Posting.accountId := by
  rw [sortedAccountIds, List.mem_insertionSort, List.mem_dedup]

theorem view_accounts (s : Database) (ws : List (Write backend)) :
    (view s ws).accounts = s.accounts := by
  induction ws generalizing s with
  | nil => rfl
  | cons w ws ih =>
    refine (ih (s.put w.row)).trans ?_
    cases w.row <;> rfl

theorem hasAccount_of_entry {s : Database} {ws : List (Write backend)} {e : LedgerEntry}
    (h : (view s ws).violation (.ledgerEntry e) = none) : s.hasAccount e.accountId = true := by
  have hc := (firstFailing_eq_none_iff _).mp h
    ((view s ws).hasAccount e.accountId, .foreignKeyViolation "ledger_entries.account_id")
    (by simp [Database.checks])
  have hsame : (view s ws).hasAccount e.accountId = s.hasAccount e.accountId := by
    unfold Database.hasAccount
    rw [view_accounts]
  rw [← hsame]
  exact hc

theorem nonneg_of_balance {s : Database} {r : AccountBalance}
    (h : s.violation (.accountBalance r) = none) : 0 ≤ r.balance := by
  have hc := (firstFailing_eq_none_iff _).mp h
    (decide (0 ≤ r.balance), .checkViolation "non_negative_balance") (by simp [Database.checks])
  exact of_decide_eq_true hc

theorem bigint_of_balance {s : Database} {r : AccountBalance}
    (h : s.violation (.accountBalance r) = none) :
    bigint r.balance = true ∧ bigint r.version = true := by
  have hall := (firstFailing_eq_none_iff _).mp h
  exact ⟨hall (bigint r.balance, .dataError "balance") (by simp [Database.checks]),
    hall (bigint r.version, .dataError "version") (by simp [Database.checks])⟩

theorem bigint_of_entry {s : Database} {e : LedgerEntry}
    (h : s.violation (.ledgerEntry e) = none) : bigint e.amount = true :=
  (firstFailing_eq_none_iff _).mp h (bigint e.amount, .dataError "amount")
    (by simp [Database.checks])

theorem balanceOf_of_find {s : Database} {a : Uuid} {r : AccountBalance}
    (h : s.accountBalances.find? a = some r) : balanceOf s a = r.balance := by
  simp [balanceOf, h]

theorem versionOf_of_find {s : Database} {a : Uuid} {r : AccountBalance}
    (h : s.accountBalances.find? a = some r) : versionOf s a = r.version := by
  simp [versionOf, h]

theorem shortage_congr {f g : Uuid → ℤ} {ps : List Posting} {e : Exn} (h : Shortage f ps e)
    (hfg : ∀ p ∈ ps, f p.accountId = g p.accountId) : Shortage g ps e := by
  obtain ⟨before, p, after, rfl, hd, hlt, rfl⟩ := h
  have hp := hfg p (by simp)
  rw [hp] at hlt ⊢
  exact ⟨before, p, after, rfl, hd, hlt, rfl⟩

/-- The effect of the last flush of `post` on the store after its locks. -/
theorem posted_of_flush (L₀ L : Session backend) (txn : LedgerTransaction) {postings : List Posting}
    {b : BalancesMap} (hbal : validateBalanced postings = .ok ())
    (hfresh : (F.working L₀).ledgerTransactions.find? txn.id = none)
    (hrest : F.working L = { (F.working L₀).put (.ledgerTransaction txn) with
      accountBalances := (F.working L).accountBalances })
    (hrows : ∀ a ∈ sortedAccountIds postings, (F.working L).accountBalances.find? a = some (b a))
    (hkept : ∀ a, a ∉ sortedAccountIds postings →
      (F.working L).accountBalances.find? a = (F.working L₀).accountBalances.find? a)
    (hsame : ∀ a, balanceOf (F.working L) a = balanceOf (F.working L₀) a)
    (hversion : ∀ a, versionOf (F.working L) a = versionOf (F.working L₀) a)
    (hp : L.pending = [])
    (hok : (applyPostings txn.id 0 postings b).failure = none)
    (hf : F.Flushes L.flushed
      (staged (sortedAccountIds postings) (applyPostings txn.id 0 postings b))) :
    Posted (F.working L₀) (view (F.working L)
      (staged (sortedAccountIds postings) (applyPostings txn.id 0 postings b))) txn postings := by
  obtain ⟨hentries, hbalances⟩ := applyPostings_ok hok
  set ids := sortedAccountIds postings with hids
  set final := (applyPostings txn.id 0 postings b).balances with hfinal
  have hstaged : staged ids (applyPostings txn.id 0 postings b) =
      insertEntries (entriesOf txn.id 0 postings) ++ updateBalances ids final := by
    rw [staged, hentries]
    rfl
  have hview : F.working L = view F.hi L.flushed := Frame.working_of_pending L hp
  rw [hstaged] at hf ⊢
  have hboth := Frame.violation_of_flushes hf
  obtain ⟨hrest₁, hrows₁⟩ := view_insertEntries _ hf
  rw [← hview] at hrest₁ hrows₁
  have hid : ∀ a ∈ ids, (final a).accountId = a := by
    intro a ha
    rw [(hbalances a).1]
    exact Table.key_of_find? (hrows a ha)
  set s₁ := view (F.working L) (insertEntries (entriesOf txn.id 0 postings)) with hs₁
  obtain ⟨hrest₂, hfind₂⟩ := view_updateBalances ids final s₁ hid
  rw [view_append, ← hs₁]
  set s₂ := view s₁ (updateBalances ids final) with hs₂
  have hacc₁ : s₁.accountBalances = (F.working L).accountBalances := by rw [hrest₁]
  have hval : ∀ a ∈ ids, (final a).balance =
      balanceOf (F.working L₀) a + net (moves postings) a := by
    intro a ha
    rw [(hbalances a).2, ← hsame a, balanceOf_of_find (hrows a ha)]
  have hout : ∀ a, a ∉ ids → net (moves postings) a = 0 := by
    intro a ha
    refine net_of_notMem _ _ ?_
    rw [hids, mem_sortedAccountIds] at ha
    simpa [moves] using ha
  have hmem : ∀ p ∈ postings, p.accountId ∈ ids := fun p hp' =>
    (mem_sortedAccountIds _ _).mpr (List.mem_map_of_mem hp')
  have hused : ∀ a, a ∉ ids → uses postings a = 0 := by
    intro a ha
    rw [hids, mem_sortedAccountIds] at ha
    exact List.count_eq_zero.mpr ha
  have hrow : ∀ p ∈ postings, ∃ s : Database,
      s.violation (.accountBalance (final p.accountId)) = none := by
    intro p hp'
    obtain ⟨s, fl, _, hv⟩ := hboth (.update (.accountBalance (final p.accountId)))
      (List.mem_append_right _ (List.mem_map_of_mem (hmem p hp')))
    exact ⟨_, hv⟩
  have hfinal : ∀ p ∈ postings, s₂.accountBalances.find? p.accountId = some (final p.accountId) := by
    intro p hp'
    rw [hfind₂, if_pos (hmem p hp')]
  refine ⟨hbal, hfresh, ?_, ?_, ?_, ?_, ?_, ?_, ?_, ?_, ?_, ?_⟩
  · rw [hrest₂, hrest₁, hrest]
    exact Table.rows_put_new _ _ hfresh
  · rw [hrest₂, hrows₁, hrest]
    rfl
  · intro a
    by_cases ha : a ∈ ids
    · have hrow := hfind₂ a
      rw [if_pos ha] at hrow
      rw [balanceOf_of_find hrow, hval a ha]
    · rw [hout a ha, add_zero]
      unfold balanceOf
      rw [hfind₂, if_neg ha, hacc₁, hkept a ha]
  · intro a
    by_cases ha : a ∈ ids
    · have hrow := hfind₂ a
      rw [if_pos ha] at hrow
      rw [versionOf_of_find hrow, applyPostings_version hok a, ← hversion a,
        versionOf_of_find (hrows a ha)]
    · rw [hused a ha, Nat.cast_zero, add_zero]
      unfold versionOf
      rw [hfind₂, if_neg ha, hacc₁, hkept a ha]
  · intro p hp'
    rw [hfinal p hp']
    rfl
  · intro a ha
    rw [← mem_sortedAccountIds] at ha
    rw [hfind₂, if_neg ha, hacc₁, hkept a ha]
  · intro p hp'
    obtain ⟨s, hv⟩ := hrow p hp'
    rw [balanceOf_of_find (hfinal p hp')]
    exact nonneg_of_balance hv
  · intro e hshort
    refine applyPostings_covered hok e (shortage_congr hshort ?_)
    intro p hp'
    rw [← hsame, balanceOf_of_find (hrows _ (hmem p hp'))]
  · intro p hp'
    obtain ⟨s, hv⟩ := hrow p hp'
    obtain ⟨e, he, _, hamount⟩ := exists_entry txn.id 0 hp'
    obtain ⟨s', fl', _, hv'⟩ := hboth (.insert (.ledgerEntry e))
      (List.mem_append_left _ (List.mem_map_of_mem he))
    rw [balanceOf_of_find (hfinal p hp'), versionOf_of_find (hfinal p hp'), ← hamount]
    exact ⟨bigint_of_entry hv', bigint_of_balance hv⟩
  · unfold SameElsewhere
    rw [hrest₂, hrest₁, hrest]
    rfl

theorem working_headed (L : Session backend) (txn : LedgerTransaction) :
    F.working (headed L txn) = (F.working L).put (.ledgerTransaction txn) := by
  rw [headed, Frame.working_flushAll, Frame.working_stage]
  rfl

/-- The rows the loop works on hold the balances of before the call. -/
theorem Locked.balance_of {postings : List Posting} {b : BalancesMap} {L L₁ : Session backend}
    {txn : LedgerTransaction}
    (h : Locked F (sortedAccountIds postings) zeroBalance b (headed L txn) L₁) {a : Uuid}
    (ha : a ∈ sortedAccountIds postings) : (b a).balance = balanceOf (F.working L) a := by
  have hsame := h.balance a
  rw [balanceOf_of_find (h.rows a ha), working_headed] at hsame
  exact hsame

theorem PostStops.raises {type : TransactionType} {referenceId : Uuid} {postings : List Posting}
    {L L' : Session backend} {e : Exn} (h : PostStops F type referenceId postings L e L') :
    PostRaises F postings L e := by
  cases h with
  | invalid h => exact Or.inl h
  | header L' txn hbal hunspent hundrawn h => exact Or.inr (Or.inl (refused_of_flushFails h))
  | account L' txn hbal hunspent hundrawn hf h =>
    obtain ⟨before, a, after, b₁, L₁, s, _, _, _, _, hfails⟩ := h.row
    exact Or.inr (Or.inl (refused_of_flushFails hfails))
  | shortage txn b L₁ hbal hunspent hundrawn hf hlocked h =>
    refine Or.inr (Or.inr (shortage_congr (applyPostings_failure h) ?_))
    intro p hp
    exact hlocked.balance_of ((mem_sortedAccountIds _ _).mpr (List.mem_map_of_mem hp))
  | refused L' txn b L₁ hbal hunspent hundrawn hf hlocked hok h =>
    exact Or.inr (Or.inl (refused_of_flushFails h))

theorem post_stops (type : TransactionType) (referenceId : Uuid) (postings : List Posting)
    (L : Session backend) :
    (post type referenceId postings).Ensures F L (Stop.Ends
      (PostStops F type referenceId postings L) (PostReturns F type referenceId postings L)) := by
  unfold post
  refine ensures_ofExcept ?_ fun e he => .invalid e he
  intro u hbal
  refine ensures_uuid4 ?_
  intro id hspent hdrawn
  set txn : LedgerTransaction := ⟨id, type, referenceId⟩ with htxn
  refine ensures_add (ensures_flush ?_ fun e L' he => .header e L' txn hbal hspent hdrawn he)
  intro hf₁
  have hflushes : F.Flushes L.flushed (L.pending ++ [.insert (.ledgerTransaction txn)]) := hf₁
  have hwork₁ := working_headed (F := F) L txn
  have hfresh : (F.working L).ledgerTransactions.find? txn.id = none :=
    Option.map_eq_none_iff.mp (Frame.get_of_flushes hflushes)
  refine Prog.Ensures.bind
    (lockBalances_ensures (sortedAccountIds postings) zeroBalance (headed L txn) rfl)
    (fun e L' he => .account e L' txn hbal hspent hdrawn hflushes he) ?_
  intro b L₂ hlocked
  have hsame : ∀ a, balanceOf (F.working L₂) a = balanceOf (F.working L) a := by
    intro a
    rw [hlocked.balance a, hwork₁]
    rfl
  have hversion : ∀ a, versionOf (F.working L₂) a = versionOf (F.working L) a := by
    intro a
    rw [hlocked.version a, hwork₁]
    rfl
  have hrest : F.working L₂ = { (F.working L).put (.ledgerTransaction txn) with
      accountBalances := (F.working L₂).accountBalances } := by
    rw [← hwork₁]
    exact hlocked.rest
  refine Prog.Ensures.stageRows ?_
  set applied := applyPostings id 0 postings b with happlied
  cases hfail : applied.failure with
  | some e =>
    exact Prog.Ensures.raise (.shortage e txn b L₂ hbal hspent hdrawn hflushes hlocked hfail)
  | none =>
    have hpend : (L₂.stageAll (staged (sortedAccountIds postings) applied)).pending =
        staged (sortedAccountIds postings) applied := by
      change L₂.pending ++ _ = _
      rw [hlocked.pending]
      rfl
    refine ensures_flush ?_ ?_
    · rw [hpend]
      intro hf₂
      refine Prog.Ensures.pure ?_
      set L₃ := (L₂.stageAll (staged (sortedAccountIds postings) applied)).flushAll with hL₃
      have hfl : L₃.flushed = L₂.flushed ++ staged (sortedAccountIds postings) applied := by
        change L₂.flushed ++ _ = _
        rw [hpend]
      have hwork₃ : F.working L₃ = view (F.working L₂)
          (staged (sortedAccountIds postings) applied) := by
        rw [Frame.working_of_pending L₃ rfl, Frame.working_of_pending L₂ hlocked.pending, hfl,
          view_append]
      have hposted := posted_of_flush L L₂ txn hbal hfresh hrest
        hlocked.rows (by
          intro a ha
          rw [hlocked.kept a ha, hwork₁]
          rfl) hsame hversion hlocked.pending hfail hf₂
      refine ⟨hwork₃ ▸ hposted, rfl, rfl, rfl, hspent, hdrawn, ?_, ?_, ?_, ?_⟩
      · exact hlocked.drawn
      · exact ((Frame.flushes_append _ _ _).mp hflushes).1
      · obtain ⟨ws, hws, hzero⟩ := hlocked.writes
        refine ⟨.insert (.ledgerTransaction txn) :: ws ++
          staged (sortedAccountIds postings) applied, ?_, ?_⟩
        · rw [hfl, hws]
          simp [headed, Session.flushAll, Session.stage, Session.draw]
        · intro w hw
          rcases List.mem_append.mp hw with hw | hw
          · rcases List.mem_cons.mp hw with rfl | hw
            · rfl
            · obtain ⟨a, rfl⟩ := hzero w hw
              trivial
          · rcases List.mem_append.mp hw with hw | hw
            · obtain ⟨e, he, rfl⟩ := List.mem_map.mp hw
              rw [(applyPostings_ok hfail).1] at he
              exact transactionId_of_mem_entriesOf he
            · obtain ⟨a, _, rfl⟩ := List.mem_map.mp hw
              trivial
      · intro p hp
        obtain ⟨e, he, hacc, _⟩ := exists_entry id 0 hp
        obtain ⟨s, fl, hs, hv⟩ := Frame.violation_of_flushes hf₂ (.insert (.ledgerEntry e)) (by
          refine List.mem_append_left _ ?_
          rw [(applyPostings_ok hfail).1]
          exact List.mem_map_of_mem he)
        exact ⟨s, hs, hacc ▸ hasAccount_of_entry hv⟩
    · rw [hpend]
      exact fun e L' he => .refused e L' txn b L₂ hbal hspent hdrawn hflushes hlocked hfail he

theorem post_ensures (type : TransactionType) (referenceId : Uuid) (postings : List Posting)
    (L : Session backend) :
    (post type referenceId postings).Ensures F L (Stop.Ends
      (fun e _ => PostRaises F postings L e) (PostReturns F type referenceId postings L)) :=
  (post_stops type referenceId postings L).ends (fun _ _ h => h.raises) fun _ _ h => h

end Post

section Trigger

variable {F : Frame backend}

/-- Every journal entry belongs to a transaction of the ledger. -/
def EntriesKnown (s : Database) : Prop :=
  ∀ e ∈ s.ledgerEntries.rows, (s.ledgerTransactions.find? e.transactionId).isSome

/-- Every transaction whose entries the session has inserted nets to zero, so that
the deferred trigger accepts a commit. -/
structure Sealed (F : Frame backend) (L : Session backend) : Prop where
  known : EntriesKnown (F.working L)
  nets : ∀ e, Row.ledgerEntry e ∈ (L.flushed ++ L.pending).filterMap Write.inserted →
    (F.working L).entryNet e.transactionId = 0

theorem assertLedgerBalanced_eq_none {s : Database} {rows : List Row}
    (h : ∀ e, Row.ledgerEntry e ∈ rows → s.entryNet e.transactionId = 0) :
    s.assertLedgerBalanced rows = none := by
  induction rows with
  | nil => rfl
  | cons r rows ih =>
    have hrest := ih fun e he => h e (List.mem_cons_of_mem _ he)
    cases r with
    | ledgerEntry e =>
      simp only [Database.assertLedgerBalanced]
      rw [if_pos (h e (List.mem_cons_self ..))]
      exact hrest
    | _ => exact hrest

theorem assertLedgerBalanced_error {s : Database} {rows : List Row} {e : Exn}
    (h : s.assertLedgerBalanced rows = some e) : ∃ i n, e = .ledgerUnbalanced i n := by
  induction rows with
  | nil => contradiction
  | cons r rows ih =>
    cases r with
    | ledgerEntry x =>
      simp only [Database.assertLedgerBalanced] at h
      split at h
      · exact ih h
      · cases h
        exact ⟨_, _, rfl⟩
    | _ => exact ih h

theorem Sealed.deferred (h : Sealed F L) :
    backend.deferred (F.working L) ((L.flushed ++ L.pending).filterMap Write.inserted) = none :=
  assertLedgerBalanced_eq_none h.nets

/-- A row outside the ledger. -/
def OutsideLedger : Row → Prop
  | .accountBalance _ => False
  | .ledgerTransaction _ => False
  | .ledgerEntry _ => False
  | _ => True

theorem Sealed.stage {L : Session backend} {w : Write backend} (h : Sealed F L)
    (hw : OutsideLedger w.row) : Sealed F (L.stage w) := by
  have hsame : (F.working (L.stage w)).ledgerEntries = (F.working L).ledgerEntries ∧
      (F.working (L.stage w)).ledgerTransactions = (F.working L).ledgerTransactions := by
    rw [Frame.working_stage]
    revert hw
    cases w.row <;> intro hw <;> first | exact ⟨rfl, rfl⟩ | exact hw.elim
  obtain ⟨hknown, hnets⟩ := h
  constructor
  · unfold EntriesKnown
    rw [hsame.1, hsame.2]
    exact hknown
  · intro e he
    unfold Database.entryNet
    rw [hsame.1]
    refine hnets e ?_
    rw [Session.stage, ← List.append_assoc, List.filterMap_append, List.mem_append] at he
    refine he.resolve_right fun hmem => ?_
    cases w with
    | insert r =>
      obtain rfl : Row.ledgerEntry e = r := by simpa [Write.inserted] using hmem
      exact hw.elim
    | update r => simp [Write.inserted] at hmem

theorem Sealed.flushAll {L : Session backend} (h : Sealed F L) : Sealed F L.flushAll := by
  obtain ⟨hknown, hnets⟩ := h
  refine ⟨by rwa [Frame.working_flushAll], ?_⟩
  rw [Frame.working_flushAll]
  simpa [Session.flushAll] using hnets

theorem sum_entriesOf (id t : Uuid) (n : ℕ) (ps : List Posting) :
    ((entriesOf id n ps).map fun e => if e.transactionId = t then
      if e.direction = .debit then e.amount else -e.amount else 0).sum =
      if id = t then -imbalance (moves ps) else 0 := by
  induction ps generalizing n with
  | nil => simp [entriesOf, moves, imbalance]
  | cons p ps ih =>
    have hcons : imbalance (moves (p :: ps)) = signed p + imbalance (moves ps) := rfl
    simp only [entriesOf, List.map_cons, List.sum_cons, ih, hcons, entryOf]
    by_cases ht : id = t
    · cases hd : p.direction <;> simp [ht, signed, hd] <;> ring
    · simp [ht]

theorem entryNet_posted {s s' : Database} {txn : LedgerTransaction} {ps : List Posting}
    (h : Posted s s' txn ps) (t : Uuid) : s'.entryNet t = s.entryNet t := by
  have himb := (validateBalanced_ok h.balanced).2.2
  unfold Database.entryNet Table.sum
  rw [h.entries, List.map_append, List.sum_append, sum_entriesOf, himb]
  simp

theorem entryNet_unknown {s : Database} (hk : EntriesKnown s) {t : Uuid}
    (ht : s.ledgerTransactions.find? t = none) : s.entryNet t = 0 := by
  unfold Database.entryNet Table.sum
  refine List.sum_eq_zero ?_
  intro x hx
  obtain ⟨e, he, rfl⟩ := List.mem_map.mp hx
  rw [if_neg]
  rintro rfl
  have hsome := hk e he
  rw [ht] at hsome
  contradiction

theorem find_txn_posted {s s' : Database} {txn : LedgerTransaction} {ps : List Posting}
    (h : Posted s s' txn ps) (t : LedgerTransaction) :
    t ∈ s'.ledgerTransactions.rows ↔ t ∈ s.ledgerTransactions.rows ∨ t = txn := by
  rw [h.txns, List.mem_append, List.mem_singleton]

theorem entriesKnown_posted {s s' : Database} {txn : LedgerTransaction} {ps : List Posting}
    (h : Posted s s' txn ps) (hk : EntriesKnown s) : EntriesKnown s' := by
  intro e he
  rw [h.entries, List.mem_append] at he
  rcases he with he | he
  · obtain ⟨t, ht⟩ := Option.isSome_iff_exists.mp (hk e he)
    have hmem := (find_txn_posted h t).mpr (Or.inl (Table.mem_of_find? ht))
    rw [← Table.key_of_find? ht, Table.find?_of_mem hmem]
    rfl
  · rw [transactionId_of_mem_entriesOf he,
      Table.find?_of_mem ((find_txn_posted h txn).mpr (Or.inr rfl))]
    rfl

/-- Posting keeps a session sealed: the new transaction nets to zero and no other
transaction gets an entry. -/
theorem PostReturns.sealed {type : TransactionType} {ref : Uuid} {ps : List Posting}
    {L L' : Session backend} {txn : LedgerTransaction}
    (h : PostReturns F type ref ps L txn L') (hs : Sealed F L) : Sealed F L' := by
  refine ⟨entriesKnown_posted h.posted hs.known, ?_⟩
  intro e he
  obtain ⟨ws, hws, hrows⟩ := h.writes
  rw [h.pending, List.append_nil, hws, List.filterMap_append, List.mem_append] at he
  rw [entryNet_posted h.posted]
  rcases he with he | he
  · exact hs.nets e he
  · obtain ⟨w, hw, hi⟩ := List.mem_filterMap.mp he
    have hrow := hrows w hw
    cases w with
    | insert r =>
      obtain rfl : r = Row.ledgerEntry e := Option.some.inj hi
      rw [show e.transactionId = txn.id from hrow]
      exact entryNet_unknown hs.known h.posted.fresh
    | update r => contradiction

end Trigger

end ApexPayments.Ledger
