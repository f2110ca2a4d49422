import ApexPayments.Changes
import ApexPayments.RowLocking.Serial
import Mathlib.Algebra.Order.BigOperators.Group.List

/-!
Exactly when `LedgerService.post` succeeds with nothing beside it, what it does then,
and what a failed call leaves in its session.
-/
namespace ApexPayments.Ledger

open Domain Store RowLocking DoubleEntry Service

section Funds

variable {ps : List Posting}

/-- At least two postings, all positive, whose debits equal their credits. -/
structure Balanced (ps : List Posting) : Prop where
  length : 2 ≤ ps.length
  positive : ∀ p ∈ ps, 0 < p.amount
  imbalance : imbalance (moves ps) = 0

theorem netAmount_positive (hpos : ∀ p ∈ ps, 0 < p.amount) (n : ℤ) :
    netAmount ps n = .ok (n - imbalance (moves ps)) := by
  induction ps generalizing n with
  | nil => simp [netAmount, moves, imbalance]
  | cons p ps ih =>
    have hp : ¬ p.amount ≤ 0 := by
      have := hpos p (List.mem_cons_self ..)
      omega
    have hcons : imbalance (moves (p :: ps)) = signed p + imbalance (moves ps) := rfl
    have hrest := fun m => ih (fun q hq => hpos q (List.mem_cons_of_mem _ hq)) m
    rw [netAmount, if_neg hp, hcons]
    cases hd : p.direction with
    | debit =>
      simp only [hrest, signed, hd]
      ring_nf
    | credit =>
      simp only [hrest, signed, hd]
      ring_nf

theorem validateBalanced_iff : validateBalanced ps = .ok () ↔ Balanced ps := by
  constructor
  · intro h
    obtain ⟨hlength, hpos, hsum⟩ := validateBalanced_ok h
    exact ⟨hlength, hpos, hsum⟩
  · rintro ⟨hlength, hpos, hsum⟩
    have hlen : ¬ ps.length < 2 := by omega
    rw [validateBalanced, if_neg hlen, netAmount_positive hpos, hsum]
    rfl

theorem Balanced.perm {qs : List Posting} (h : Balanced ps) (hperm : ps.Perm qs) : Balanced qs where
  length := hperm.length_eq ▸ h.length
  positive := fun p hp => h.positive p (hperm.mem_iff.mpr hp)
  imbalance := by
    rw [← h.imbalance]
    exact (((hperm.map _).map Prod.snd).sum_eq).symm

/-- The total of the postings of one direction on an account. -/
def sumOf (d : Direction) (ps : List Posting) (a : Uuid) : ℤ :=
  ((ps.filter fun p => p.direction = d ∧ p.accountId = a).map Posting.amount).sum

theorem sumOf_cons (d : Direction) (p : Posting) (a : Uuid) :
    sumOf d (p :: ps) a =
      (if p.direction = d ∧ p.accountId = a then p.amount else 0) + sumOf d ps a := by
  unfold sumOf
  by_cases h : p.direction = d ∧ p.accountId = a
  · rw [List.filter_cons_of_pos (by simpa using h), if_pos h]
    rfl
  · rw [List.filter_cons_of_neg (by simpa using h), if_neg h, zero_add]

theorem sumOf_append (d : Direction) (qs : List Posting) (a : Uuid) :
    sumOf d (ps ++ qs) a = sumOf d ps a + sumOf d qs a := by
  simp [sumOf]

theorem sumOf_perm (d : Direction) {qs : List Posting} (h : ps.Perm qs) (a : Uuid) :
    sumOf d ps a = sumOf d qs a := ((h.filter _).map _).sum_eq

theorem sumOf_nonneg (d : Direction) (hpos : ∀ p ∈ ps, 0 < p.amount) (a : Uuid) :
    0 ≤ sumOf d ps a := by
  refine List.sum_nonneg ?_
  intro x hx
  obtain ⟨p, hp, rfl⟩ := List.mem_map.mp hx
  exact (hpos p (List.mem_filter.mp hp).1).le

/-- What is added to an account is its credits minus its debits. -/
theorem net_moves (ps : List Posting) (a : Uuid) :
    net (moves ps) a = sumOf .credit ps a - sumOf .debit ps a := by
  induction ps with
  | nil => rfl
  | cons p ps ih =>
    rw [net_moves_cons, ih, sumOf_cons, sumOf_cons]
    by_cases ha : p.accountId = a
    · cases hd : p.direction with
      | debit =>
        simp only [ha, signed, hd, and_true, reduceCtorEq, if_true, if_false]
        ring
      | credit =>
        simp only [ha, signed, hd, and_true, reduceCtorEq, if_true, if_false]
        ring
    · simp [ha]

/-- No account is both debited and credited. -/
def OneSided (ps : List Posting) : Prop :=
  ∀ p ∈ ps, ∀ q ∈ ps, p.direction = .debit → q.direction = .credit → p.accountId ≠ q.accountId

theorem OneSided.perm {qs : List Posting} (h : OneSided ps) (hperm : ps.Perm qs) : OneSided qs :=
  fun p hp q hq => h p (hperm.mem_iff.mpr hp) q (hperm.mem_iff.mpr hq)

theorem sumOf_eq_zero (d : Direction) {a : Uuid}
    (h : ∀ p ∈ ps, p.direction = d → p.accountId ≠ a) : sumOf d ps a = 0 := by
  have hnil : ps.filter (fun p => p.direction = d ∧ p.accountId = a) = [] := by
    refine List.filter_eq_nil_iff.mpr ?_
    intro p hp
    simpa using h p hp
  rw [sumOf, hnil]
  rfl

/-- An account that is debited is not credited. -/
theorem OneSided.credit_eq_zero (h : OneSided ps) {p : Posting} (hp : p ∈ ps)
    (hd : p.direction = .debit) : sumOf .credit ps p.accountId = 0 :=
  sumOf_eq_zero .credit fun q hq hc hsame => h p hp q hq hd hc hsame.symm

/-- An account that runs short in the loop cannot cover all its debits. -/
theorem OneSided.exists_short {balance : Uuid → ℤ} {e : Exn} (h : OneSided ps)
    (hpos : ∀ p ∈ ps, 0 < p.amount) (hshort : Shortage balance ps e) :
    ∃ a, balance a < sumOf .debit ps a := by
  obtain ⟨before, p, after, rfl, hd, hlt, -⟩ := hshort
  have hbefore : sumOf .credit before p.accountId = 0 := by
    refine sumOf_eq_zero .credit ?_
    intro q hq hc hsame
    exact h p (by simp) q (List.mem_append_left _ hq) hd hc hsame.symm
  have hafter : 0 ≤ sumOf .debit after p.accountId := by
    apply sumOf_nonneg
    exact fun q hq => hpos q (List.mem_append_right _ (List.mem_cons_of_mem _ hq))
  refine ⟨p.accountId, ?_⟩
  rw [net_moves, hbefore] at hlt
  rw [sumOf_append, sumOf_cons, if_pos ⟨hd, rfl⟩]
  omega

theorem applyPosting_nonneg {b b' : BalancesMap} {p : Posting} (h : applyPosting b p = .ok b')
    (hp : 0 < p.amount) (hb : ∀ a, 0 ≤ (b a).balance) (a : Uuid) : 0 ≤ (b' a).balance := by
  have ha := hb a
  simp only [applyPosting] at h
  split at h
  · split at h
    · contradiction
    · rename_i hcovered
      cases h
      by_cases hsame : a = p.accountId
      · subst hsame
        simpa using hcovered
      · simpa [Function.update_of_ne hsame] using ha
  · cases h
    by_cases hsame : a = p.accountId
    · subst hsame
      simp only [Function.update_self]
      omega
    · simpa [Function.update_of_ne hsame] using ha

/-- The loop never overdraws an account. -/
theorem applyPostings_nonneg {id : Uuid} {n : ℕ} {b : BalancesMap}
    (h : (applyPostings id n ps b).failure = none) (hpos : ∀ p ∈ ps, 0 < p.amount)
    (hb : ∀ a, 0 ≤ (b a).balance) (a : Uuid) :
    0 ≤ ((applyPostings id n ps b).balances a).balance := by
  induction ps generalizing n b with
  | nil => exact hb a
  | cons p ps ih =>
    simp only [applyPostings] at h ⊢
    split at h
    · contradiction
    · rename_i b' hb'
      refine ih h (fun q hq => hpos q (List.mem_cons_of_mem _ hq)) ?_
      exact applyPosting_nonneg hb' (hpos p (List.mem_cons_self ..)) hb

end Funds

section Fit

variable {s s' : Database} {spent : List Uuid} {ps : List Posting}

/-- The accounts exist, and no amount and no new balance or version leaves the range
of its column. -/
structure Fits (s : Database) (ps : List Posting) : Prop where
  accounts : ∀ p ∈ ps, s.hasAccount p.accountId = true
  amounts : ∀ p ∈ ps, bigint p.amount = true
  balances : ∀ p ∈ ps, bigint (balanceOf s p.accountId + net (moves ps) p.accountId) = true
  versions : ∀ p ∈ ps, bigint (versionOf s p.accountId + uses ps p.accountId) = true

theorem uses_perm {qs : List Posting} (h : ps.Perm qs) (a : Uuid) : uses ps a = uses qs a :=
  (h.map _).count_eq a

theorem net_moves_perm {qs : List Posting} (h : ps.Perm qs) (a : Uuid) :
    net (moves ps) a = net (moves qs) a := net_perm (h.map _) a

theorem Fits.perm {qs : List Posting} (h : Fits s ps) (hperm : ps.Perm qs) : Fits s qs where
  accounts := fun p hp => h.accounts p (hperm.mem_iff.mpr hp)
  amounts := fun p hp => h.amounts p (hperm.mem_iff.mpr hp)
  balances := by
    intro p hp
    rw [← net_moves_perm hperm]
    exact h.balances p (hperm.mem_iff.mpr hp)
  versions := by
    intro p hp
    rw [← uses_perm hperm]
    exact h.versions p (hperm.mem_iff.mpr hp)

/-- What the constraints on the ledger tables and identifiers that never repeat give. -/
structure Kept (s : Database) (used : List Uuid) : Prop where
  nonneg : ∀ r ∈ s.accountBalances.rows, 0 ≤ r.balance
  known : EntriesKnown s
  ids : ∀ t ∈ s.ledgerTransactions.rows, t.id ∈ used

theorem Kept.balance_nonneg {used : List Uuid} (h : Kept s used) (a : Uuid) :
    0 ≤ balanceOf s a := by
  unfold balanceOf
  cases hrow : s.accountBalances.find? a with
  | none => rfl
  | some r => exact h.nonneg r (Table.mem_of_find? hrow)

theorem Kept.fresh {used : List Uuid} (h : Kept s used) {id : Uuid} (hid : id ∉ used) :
    s.ledgerTransactions.find? id = none := by
  rw [Table.find?_eq_none_iff]
  rintro t ht rfl
  exact hid (h.ids t ht)

/-- The balances stay covered and the new transaction is among the used ones. -/
theorem Kept.posted {used : List Uuid} {txn : LedgerTransaction} (h : Kept s used)
    (hp : Posted s s' txn ps) : Kept s' (txn.id :: used) where
  nonneg := by
    intro r hr
    have hrow := Table.find?_of_mem hr
    by_cases ha : r.accountId ∈ ps.map Posting.accountId
    · obtain ⟨p, hp', hsame⟩ := List.mem_map.mp ha
      have hn := hp.nonneg p hp'
      rwa [hsame, balanceOf_of_find hrow] at hn
    · rw [hp.kept _ ha] at hrow
      exact h.nonneg r (Table.mem_of_find? hrow)
  known := entriesKnown_posted hp h.known
  ids := by
    intro t ht
    rcases (find_txn_posted hp t).mp ht with ht | rfl
    · exact List.mem_cons_of_mem _ (h.ids t ht)
    · exact List.mem_cons_self ..

theorem Posted.fits {txn : LedgerTransaction} (h : Posted s s' txn ps)
    (haccounts : ∀ p ∈ ps, s.hasAccount p.accountId = true) : Fits s ps where
  accounts := haccounts
  amounts := fun p hp => (h.inRange p hp).1
  balances := by
    intro p hp
    rw [← h.balance]
    exact (h.inRange p hp).2.1
  versions := by
    intro p hp
    rw [← h.version]
    exact (h.inRange p hp).2.2

end Fit

section Alone

variable {s : Database} {spent : List Uuid} {ps : List Posting} {L L' : Session backend}

theorem flushFails_append {F : Frame backend} {e : Exn} {fl ws ws' : List (Write backend)} :
    F.FlushFails e fl (ws ++ ws') ↔
      F.FlushFails e fl ws ∨ F.Flushes fl ws ∧ F.FlushFails e (fl ++ ws) ws' := by
  induction ws generalizing fl with
  | nil => simp [Frame.FlushFails, Frame.Flushes]
  | cons w ws ih =>
    simp only [List.cons_append, Frame.FlushFails, Frame.Flushes, ih, List.append_assoc]
    tauto

theorem hasAccount_view (s : Database) (ws : List (Write backend)) (a : Uuid) :
    (view s ws).hasAccount a = s.hasAccount a := by
  unfold Database.hasAccount
  rw [view_accounts]

theorem rejected_insert {t : Database} {r : Row} (h : t.get r.key = none) :
    (Write.insert r : Write backend).rejected t = t.violation r := by
  simp [Write.rejected, h]

/-- The lines of a transaction are numbered in ascending order. -/
theorem line_le_of_mem {id : Uuid} {n : ℕ} {e : LedgerEntry} (h : e ∈ entriesOf id n ps) :
    n ≤ e.line ∧ e.transactionId = id := by
  induction ps generalizing n with
  | nil => simp [entriesOf] at h
  | cons p ps ih =>
    rcases List.mem_cons.mp h with rfl | h
    · exact ⟨le_rfl, rfl⟩
    · obtain ⟨hle, hid⟩ := ih h
      exact ⟨by omega, hid⟩

theorem entriesOf_lines (id : Uuid) (n : ℕ) (ps : List Posting) :
    (entriesOf id n ps).Pairwise fun e e' => e.line ≠ e'.line := by
  induction ps generalizing n with
  | nil => exact List.Pairwise.nil
  | cons p ps ih =>
    refine List.pairwise_cons.mpr ⟨?_, ih (n + 1)⟩
    intro e he hsame
    have hle := (line_le_of_mem he).1
    have hline : n = e.line := hsame
    omega

theorem exists_posting {id : Uuid} {n : ℕ} {e : LedgerEntry} (h : e ∈ entriesOf id n ps) :
    ∃ p ∈ ps, e = entryOf id e.line p := by
  induction ps generalizing n with
  | nil => simp [entriesOf] at h
  | cons p ps ih =>
    rcases List.mem_cons.mp h with rfl | h
    · exact ⟨p, List.mem_cons_self .., rfl⟩
    · obtain ⟨q, hq, he⟩ := ih h
      exact ⟨q, List.mem_cons_of_mem _ hq, he⟩

/-- The rows that the loop works on are not overdrawn. -/
theorem Locked.nonneg {F : Frame backend} {b : BalancesMap} {L₁ : Session backend}
    {txn : LedgerTransaction}
    (h : Locked F (sortedAccountIds ps) zeroBalance b (headed L txn) L₁)
    (hk : ∀ a, 0 ≤ balanceOf (F.working L) a) (a : Uuid) : 0 ≤ (b a).balance := by
  by_cases ha : a ∈ sortedAccountIds ps
  · rw [h.balance_of ha]
    exact hk a
  · rw [h.others a ha]
    exact le_rfl

theorem Locked.version_of {F : Frame backend} {b : BalancesMap} {L₁ : Session backend}
    {txn : LedgerTransaction}
    (h : Locked F (sortedAccountIds ps) zeroBalance b (headed L txn) L₁) {a : Uuid}
    (ha : a ∈ sortedAccountIds ps) : (b a).version = versionOf (F.working L) a := by
  have hsame := h.version a
  rw [versionOf_of_find (h.rows a ha), working_headed] at hsame
  exact hsame

/-- The session before the last flush of `post`, and the store it works on. -/
structure Prepared (F : Frame backend) (ps : List Posting) (txn : LedgerTransaction)
    (b : BalancesMap) (L L₁ : Session backend) : Prop where
  locked : Locked F (sortedAccountIds ps) zeroBalance b (headed L txn) L₁
  balanced : Balanced ps
  fits : Fits (F.working L) ps
  kept : ∃ used, Kept (F.working L) used ∧ txn.id ∉ used
  ok : (applyPostings txn.id 0 ps b).failure = none

section Prepared

variable {F : Frame backend} {txn : LedgerTransaction} {b : BalancesMap} {L₁ : Session backend}
  {before after : List (Write backend)}

/-- A row that `post` writes at the end is an entry or a balance. -/
theorem mem_staged (hok : (applyPostings txn.id 0 ps b).failure = none) {w : Write backend}
    (hw : w ∈ staged (sortedAccountIds ps) (applyPostings txn.id 0 ps b)) :
    (∃ e ∈ entriesOf txn.id 0 ps, w = .insert (.ledgerEntry e)) ∨
      ∃ a ∈ sortedAccountIds ps,
        w = .update (.accountBalance ((applyPostings txn.id 0 ps b).balances a)) := by
  rw [staged, (applyPostings_ok hok).1] at hw
  rcases List.mem_append.mp hw with hw | hw
  · obtain ⟨e, he, rfl⟩ := List.mem_map.mp hw
    exact Or.inl ⟨e, he, rfl⟩
  · obtain ⟨a, ha, rfl⟩ := List.mem_map.mp hw
    exact Or.inr ⟨a, ha, rfl⟩

/-- The balance that the loop has computed for an account is accepted. -/
theorem Prepared.balance_accepted (h : Prepared F ps txn b L L₁) {a : Uuid}
    (ha : a ∈ sortedAccountIds ps) (ws : List (Write backend)) :
    (view F.hi ws).violation (.accountBalance ((applyPostings txn.id 0 ps b).balances a)) =
      none := by
  obtain ⟨used, hk, _⟩ := h.kept
  obtain ⟨hid, hbalance⟩ := (applyPostings_ok h.ok).2 a
  rw [h.locked.balance_of ha] at hbalance
  have hversion := applyPostings_version h.ok a
  rw [h.locked.version_of ha] at hversion
  rw [show (b a).accountId = a from Table.key_of_find? (h.locked.rows a ha)] at hid
  obtain ⟨p, hp, hpa⟩ := List.mem_map.mp ((mem_sortedAccountIds _ _).mp ha)
  have hnonneg := applyPostings_nonneg h.ok h.balanced.positive (h.locked.nonneg hk.balance_nonneg) a
  have hb := h.fits.balances p hp
  have hv := h.fits.versions p hp
  have haccount := h.fits.accounts p hp
  rw [hpa] at hb hv haccount
  refine (firstFailing_eq_none_iff _).mpr ?_
  simp only [Database.checks, List.mem_cons, List.not_mem_nil, or_false]
  rintro c (rfl | rfl | rfl | rfl)
  · rw [hbalance]
    exact hb
  · rw [hversion]
    exact hv
  · exact decide_eq_true hnonneg
  · rw [hid, hasAccount_view]
    rw [Frame.working, hasAccount_view] at haccount
    exact haccount

theorem Prepared.entry_absent (h : Prepared F ps txn b L L₁) (line : ℕ) :
    (F.working L₁).get (.ledgerEntry txn.id line) = none := by
  obtain ⟨used, hk, hid⟩ := h.kept
  rw [h.locked.rest, working_headed]
  refine Option.map_eq_none_iff.mpr ?_
  change (F.working L).ledgerEntries.find? (txn.id, line) = none
  rw [Table.find?_eq_none_iff]
  intro e he hkey
  have hknown := hk.known e he
  rw [(Prod.mk.inj hkey).1, hk.fresh hid] at hknown
  contradiction

theorem Prepared.header_present (h : Prepared F ps txn b L L₁) :
    (F.working L₁).get (.ledgerTransaction txn.id) = some (.ledgerTransaction txn) := by
  rw [h.locked.rest, working_headed]
  exact (F.working L).get_put_self (.ledgerTransaction txn)

/-- The statements before an entry have written no entry of its key. -/
theorem Prepared.key_ne (h : Prepared F ps txn b L L₁) {e : LedgerEntry}
    (hsplit : staged (sortedAccountIds ps) (applyPostings txn.id 0 ps b) =
      before ++ .insert (.ledgerEntry e) :: after) :
    ∀ v ∈ before, Key.ledgerEntry txn.id e.line ≠ Row.key v.row := by
  have hpair : (staged (sortedAccountIds ps) (applyPostings txn.id 0 ps b)).Pairwise
      fun v w => ∀ x y, v = .insert (.ledgerEntry x) → w = .insert (.ledgerEntry y) →
        x.line ≠ y.line := by
    rw [staged, (applyPostings_ok h.ok).1, List.pairwise_append]
    refine ⟨List.Pairwise.map _ ?_ (entriesOf_lines txn.id 0 ps), ?_, ?_⟩
    · intro x y hne x' y' hx hy
      cases hx
      cases hy
      exact hne
    · rw [List.pairwise_map]
      exact List.pairwise_of_forall fun a a' x y hx => by contradiction
    · intro v _ w hw x y _ hy
      obtain ⟨a, _, rfl⟩ := List.mem_map.mp hw
      contradiction
  intro v hv hkey
  have hcases := mem_staged h.ok (w := v) (hsplit ▸ List.mem_append_left _ hv)
  rw [hsplit] at hpair
  have hne := (List.pairwise_append.mp hpair).2.2 v hv _ (List.mem_cons_self ..)
  rcases hcases with ⟨x, _, rfl⟩ | ⟨a, _, rfl⟩
  · have hline : e.line = x.line := (Key.ledgerEntry.inj hkey).2
    exact hne x e rfl rfl hline.symm
  · contradiction

/-- The last flush of `post` accepts every entry. -/
theorem Prepared.entry_accepted (h : Prepared F ps txn b L L₁) {e : LedgerEntry}
    (hsplit : staged (sortedAccountIds ps) (applyPostings txn.id 0 ps b) =
      before ++ .insert (.ledgerEntry e) :: after) :
    (Write.insert (.ledgerEntry e) : Write backend).rejected
      (view F.hi (L₁.flushed ++ before)) = none := by
  have he : e ∈ entriesOf txn.id 0 ps := by
    have hw := mem_staged h.ok (w := .insert (.ledgerEntry e)) (by rw [hsplit]; simp)
    rcases hw with ⟨x, hx, heq⟩ | ⟨a, _, heq⟩
    · cases heq
      exact hx
    · contradiction
  obtain ⟨p, hp, heq⟩ := exists_posting he
  have hbase : view F.hi L₁.flushed = F.working L₁ :=
    (Frame.working_of_pending L₁ h.locked.pending).symm
  have habsent : (view F.hi (L₁.flushed ++ before)).get (.ledgerEntry txn.id e.line) = none := by
    rw [view_append, hbase]
    exact (get_view_of_notMem _ _ _ (h.key_ne hsplit)).trans (h.entry_absent e.line)
  have hheader : (view F.hi (L₁.flushed ++ before)).get (.ledgerTransaction txn.id) =
      some (.ledgerTransaction txn) := by
    rw [view_append, hbase]
    refine (get_view_of_notMem (F.working L₁) before (.ledgerTransaction txn.id) ?_).trans
      h.header_present
    intro v hv hkey
    rcases mem_staged h.ok (w := v) (hsplit ▸ List.mem_append_left _ hv) with ⟨x, _, rfl⟩ | ⟨a, _, rfl⟩
    · contradiction
    · contradiction
  have hkey : e.transactionId = txn.id := (line_le_of_mem he).2
  have hnew : (view F.hi (L₁.flushed ++ before)).get (Row.key (.ledgerEntry e)) = none := by
    change (view F.hi (L₁.flushed ++ before)).get (.ledgerEntry e.transactionId e.line) = none
    rw [hkey]
    exact habsent
  have haccount := h.fits.accounts p hp
  rw [Frame.working, hasAccount_view] at haccount
  obtain ⟨t, ht, _⟩ := Option.map_eq_some_iff.mp hheader
  rw [rejected_insert hnew]
  refine (firstFailing_eq_none_iff _).mpr ?_
  simp only [Database.checks, List.mem_cons, List.not_mem_nil, or_false]
  rintro c (rfl | rfl | rfl | rfl)
  · rw [heq]
    exact h.fits.amounts p hp
  · rw [heq]
    exact decide_eq_true (h.balanced.positive p hp)
  · rw [hkey, ht]
    rfl
  · rw [hasAccount_view, heq]
    exact haccount

/-- The last flush of `post` is accepted. -/
theorem Prepared.accepted (h : Prepared F ps txn b L L₁) {e : Exn} :
    ¬ F.FlushFails e L₁.flushed
      (staged (sortedAccountIds ps) (applyPostings txn.id 0 ps b)) := by
  intro hfails
  obtain ⟨before, w, after, hsplit, _, hrejected⟩ := Frame.exists_of_flushFails hfails
  have hw : w ∈ staged (sortedAccountIds ps) (applyPostings txn.id 0 ps b) := by
    rw [hsplit]
    simp
  rcases mem_staged h.ok hw with ⟨x, _, rfl⟩ | ⟨a, ha, rfl⟩
  · rw [h.entry_accepted hsplit] at hrejected
    contradiction
  · have hnone := h.balance_accepted ha (L₁.flushed ++ before)
    change (view F.hi (L₁.flushed ++ before)).violation _ = some e at hrejected
    rw [hnone] at hrejected
    contradiction

end Prepared

/-- Why `post` of a balanced list raises with nothing beside it and nothing staged: an
account is missing, one runs short, or a row that the loop has made is refused. -/
inductive PostFails (s : Database) (ps : List Posting) : Exn → Prop
  | account (e : Exn) (p : Posting) (hp : p ∈ ps) (h : s.hasAccount p.accountId = false) :
      PostFails s ps e
  | shortage (e : Exn) (h : Shortage (balanceOf s) ps e) : PostFails s ps e
  | refused (e : Exn) (he : Refused e) (hcovered : ∀ e', ¬ Shortage (balanceOf s) ps e')
      (h : ¬ Fits s ps) : PostFails s ps e

theorem PostStops.fails {type : TransactionType} {referenceId : Uuid} {e : Exn}
    (h : PostStops (.alone s spent) type referenceId ps L e L') (hbal : Balanced ps)
    (hk : Kept ((Frame.alone s spent).working L) (L.drawn ++ spent)) :
    (Frame.alone s spent).FlushFails e L.flushed L.pending ∨
      PostFails ((Frame.alone s spent).working L) ps e := by
  cases h with
  | invalid h =>
    rw [validateBalanced_iff.mpr hbal] at h
    contradiction
  | header L' txn hv hunspent hundrawn h =>
    rcases flushFails_append.mp h with h | ⟨_, h⟩
    · exact Or.inl h
    · exfalso
      have hnew : txn.id ∉ L.drawn ++ spent := by
        simp [hundrawn, show txn.id ∉ spent from hunspent]
      have hfresh := hk.fresh hnew
      rcases h with h | ⟨_, h⟩
      · have hget : (view s (L.flushed ++ L.pending)).get (.ledgerTransaction txn.id) = none :=
          Option.map_eq_none_iff.mpr hfresh
        rw [rejected_insert hget] at h
        contradiction
      · exact h
  | account L' txn hv hunspent hundrawn hf h =>
    obtain ⟨before, a, after, b₁, L₁, t, hids, _, hreads, hnone, hfails⟩ := h.row
    obtain rfl := (Frame.alone_sees s t spent).mp hreads.1
    obtain ⟨p, hp, hpa⟩ := List.mem_map.mp
      ((mem_sortedAccountIds ps a).mp (by rw [hids]; simp))
    refine Or.inr (.account e p hp ?_)
    rw [Frame.working, hasAccount_view, hpa]
    apply Bool.eq_false_iff.mpr
    intro haccount
    rcases hfails with hrejected | ⟨_, hfalse⟩
    · have hget : (view t L₁.flushed).get (.accountBalance a) = none :=
        Option.map_eq_none_iff.mpr hnone
      rw [rejected_insert hget] at hrejected
      have hok : (view t L₁.flushed).violation (.accountBalance (zeroBalance a)) = none := by
        refine (firstFailing_eq_none_iff _).mpr ?_
        simp only [Database.checks, List.mem_cons, List.not_mem_nil, or_false]
        rintro c (rfl | rfl | rfl | rfl)
        · rfl
        · rfl
        · rfl
        · rw [hasAccount_view]
          exact haccount
      exact Option.some_ne_none e (hrejected.symm.trans hok)
    · exact hfalse
  | shortage txn b L₁ hv hunspent hundrawn hf hlocked h =>
    refine Or.inr (.shortage e (shortage_congr (applyPostings_failure h) ?_))
    intro p hp
    exact hlocked.balance_of ((mem_sortedAccountIds _ _).mpr (List.mem_map_of_mem hp))
  | refused L' txn b L₁ hv hunspent hundrawn hf hlocked hok h =>
    refine Or.inr (.refused e (refused_of_flushFails h) ?_ fun hfits => ?_)
    · intro e' hshort
      refine applyPostings_covered hok e' (shortage_congr hshort ?_)
      intro p hp
      exact (hlocked.balance_of ((mem_sortedAccountIds _ _).mpr (List.mem_map_of_mem hp))).symm
    · have hid : txn.id ∉ L.drawn ++ spent := by
        simp [hundrawn, show txn.id ∉ spent from hunspent]
      exact (Prepared.mk hlocked hbal hfits ⟨_, hk, hid⟩ hok).accepted h

/-- With nothing beside it, and a balanced list whose rows fit, `post` raises only when
an earlier statement is refused or an account runs short. -/
theorem PostStops.alone {type : TransactionType} {referenceId : Uuid} {e : Exn}
    (h : PostStops (.alone s spent) type referenceId ps L e L') (hbal : Balanced ps)
    (hk : Kept ((Frame.alone s spent).working L) (L.drawn ++ spent)) :
    (Frame.alone s spent).FlushFails e L.flushed L.pending ∨
      ¬ Fits ((Frame.alone s spent).working L) ps ∨
        Shortage (balanceOf ((Frame.alone s spent).working L)) ps e := by
  rcases h.fails hbal hk with h | h
  · exact Or.inl h
  · cases h with
    | account p hp h =>
      refine Or.inr (Or.inl fun hfits => ?_)
      have haccount := hfits.accounts p hp
      rw [h] at haccount
      contradiction
    | shortage h => exact Or.inr (Or.inr h)
    | refused he hcovered h => exact Or.inr (Or.inl h)

theorem inside_lockBalances (ids : List Uuid) (b : BalancesMap) :
    (lockBalances ids b).Inside := by
  induction ids generalizing b with
  | nil => trivial
  | cons a ids ih =>
    unfold lockBalances
    refine Prog.Inside.bind ?_ ?_
    · refine Prog.Inside.bind (Prog.inside_lockRow _) ?_
      intro row
      cases row with
      | none => trivial
      | some row => cases row <;> trivial
    · intro row
      cases row with
      | none => exact ih _
      | some row => exact ih _

theorem inside_post (type : TransactionType) (referenceId : Uuid) (ps : List Posting) :
    (post type referenceId ps).Inside := by
  unfold post
  refine Prog.Inside.bind ?_ fun _ => Prog.Inside.bind Prog.inside_drawIdent fun id =>
    Prog.Inside.bind (Prog.inside_stageRow _) fun _ => Prog.Inside.bind Prog.inside_flushAll
      fun _ => Prog.Inside.bind (inside_lockBalances _ _) fun b =>
        Prog.Inside.bind (Prog.inside_stageRows _) fun _ => ?_
  · cases validateBalanced ps <;> trivial
  · cases (applyPostings id 0 ps b).failure <;> trivial

theorem exists_uuid (used : List Uuid) : ∃ i, i ∉ used :=
  ⟨used.sum + 1, fun h => by
    have := List.single_le_sum (fun _ _ => Nat.zero_le _) _ h
    omega⟩

theorem exists_answer : ∀ q : Query, Nonempty (Answer q)
  | .now => ⟨(0 : Time)⟩
  | .scan ids => ⟨⟨ids, .refl _⟩⟩
  | .authorize _ => ⟨.error ""⟩

/-- A post as a transaction of its own. -/
theorem post_transacts {type : TransactionType} {referenceId : Uuid}
    {r : Except Exn LedgerTransaction} {s' : Database} {spent' : List Uuid} (hk : Kept s spent)
    (hbal : Balanced ps)
    (h : Transacts (B := backend) (post type referenceId ps) s spent r s' spent') :
    match r with
    | .ok txn => Posted s s' txn ps ∧ txn.type = type ∧ txn.referenceId = referenceId ∧
        Fits s ps ∧ spent' = txn.id :: spent
    | .error e => ¬ Fits s ps ∨ Shortage (balanceOf s) ps e := by
  have hsealed : Sealed (.alone s spent) (.fresh backend) :=
    ⟨hk.known, fun e he => by simp [Session.fresh] at he⟩
  have hpost : (post type referenceId ps).Ensures (.alone s spent) (.fresh backend)
      (Stop.Ends (fun e _ => ¬ Fits s ps ∨ Shortage (balanceOf s) ps e)
        (PostReturns (.alone s spent) type referenceId ps (.fresh backend))) := by
    refine (post_stops type referenceId ps (.fresh backend)).ends ?_ fun _ _ h => h
    intro e L' he
    exact (he.alone hbal hk).resolve_left fun hf => hf
  have hends := Transacts.of_ensures hpost (fun _ _ h => h.pending) (by
    intro txn L hL
    have hd := (hL.sealed hsealed).deferred
    rw [Frame.working_of_pending L hL.pending, hL.pending, List.append_nil] at hd
    exact hd) h
  cases r with
  | error e => exact hends
  | ok txn =>
    obtain ⟨L, hL, rfl, rfl⟩ := hends
    have hposted := hL.posted
    rw [Frame.working_of_pending L hL.pending] at hposted
    refine ⟨hposted, hL.type, hL.reference, hposted.fits ?_, ?_⟩
    · intro p hp
      obtain ⟨t, ht, haccount⟩ := hL.accounts p hp
      rwa [(Frame.alone_sees s t spent).mp ht] at haccount
    · rw [hL.drawn]
      rfl

end Alone

section Correctness

variable {s s' : Database} {spent : List Uuid} {ps : List Posting} {type : TransactionType}
  {referenceId : Uuid}

/-- What a successful post has done: one transaction with the listed entries, and the
rows of the listed accounts. -/
structure PostEffect (type : TransactionType) (referenceId : Uuid) (ps : List Posting)
    (s s' : Database) (txn : LedgerTransaction) : Prop where
  header : txn.type = type ∧ txn.referenceId = referenceId
  transactions : s'.ledgerTransactions.rows = s.ledgerTransactions.rows ++ [txn]
  entries : s'.ledgerEntries.rows = s.ledgerEntries.rows ++ entriesOf txn.id 0 ps
  rows : ∀ a ∈ ps.map Posting.accountId, s'.accountBalances.find? a =
    some ⟨a, balanceOf s a + sumOf .credit ps a - sumOf .debit ps a, versionOf s a + uses ps a⟩
  others : ∀ a, a ∉ ps.map Posting.accountId →
    s'.accountBalances.find? a = s.accountBalances.find? a
  elsewhere : SameElsewhere s s'

theorem Posted.effect {txn : LedgerTransaction} (h : Posted s s' txn ps) (ht : txn.type = type)
    (hr : txn.referenceId = referenceId) : PostEffect type referenceId ps s s' txn where
  header := ⟨ht, hr⟩
  transactions := h.txns
  entries := h.entries
  rows := by
    intro a ha
    obtain ⟨p, hp, rfl⟩ := List.mem_map.mp ha
    obtain ⟨r, hrow⟩ := Option.isSome_iff_exists.mp (h.present p hp)
    have hbalance := h.balance p.accountId
    have hversion := h.version p.accountId
    rw [balanceOf_of_find hrow, net_moves] at hbalance
    rw [versionOf_of_find hrow] at hversion
    rw [hrow, Option.some.injEq]
    obtain ⟨account, balance, version⟩ := r
    have hid : account = p.accountId := Table.key_of_find? hrow
    simp only at hbalance hversion
    rw [hid, hbalance, hversion, add_sub_assoc]
  others := h.kept
  elsewhere := h.elsewhere

/-- A successful post covers the debits of every account. -/
theorem covered_of_posted {txn : LedgerTransaction} (h : Posted s s' txn ps) (hk : Kept s spent)
    (hone : OneSided ps) (a : Uuid) : sumOf .debit ps a ≤ balanceOf s a := by
  by_cases ha : ∃ p ∈ ps, p.direction = .debit ∧ p.accountId = a
  · obtain ⟨p, hp, hd, rfl⟩ := ha
    have hnonneg := h.nonneg p hp
    rw [h.balance, net_moves, hone.credit_eq_zero hp hd] at hnonneg
    omega
  · have hzero : sumOf .debit ps a = 0 := by
      refine sumOf_eq_zero .debit ?_
      intro p hp hd hsame
      exact ha ⟨p, hp, hd, hsame⟩
    rw [hzero]
    exact hk.balance_nonneg a

/-- A post succeeds exactly when every account can cover the total of its debits and
the rows fit their columns; its effect is the listed one, and the order of the
postings does not matter. -/
theorem post_correct (hk : Kept s spent) (hbal : Balanced ps) (hone : OneSided ps) :
    (∃ r s' spent', Transacts (B := backend) (post type referenceId ps) s spent r s' spent') ∧
    ∀ r s' spent', Transacts (B := backend) (post type referenceId ps) s spent r s' spent' →
      ((∃ txn, r = .ok txn) ↔ Fits s ps ∧ ∀ a, sumOf .debit ps a ≤ balanceOf s a) ∧
      (∀ txn, r = .ok txn → PostEffect type referenceId ps s s' txn) ∧
      (∀ e, r = .error e → s' = s) ∧
      ∀ qs, ps.Perm qs → ∀ r₂ s₂ spent₂,
        Transacts (B := backend) (post type referenceId qs) s spent r₂ s₂ spent₂ →
        ((∃ txn, r₂ = .ok txn) ↔ ∃ txn, r = .ok txn) ∧
          ∀ a, s₂.accountBalances.find? a = s'.accountBalances.find? a := by
  have hiff : ∀ qs, Balanced qs → OneSided qs → ∀ r s' spent',
      Transacts (B := backend) (post type referenceId qs) s spent r s' spent' →
      ((∃ txn, r = .ok txn) ↔ Fits s qs ∧ ∀ a, sumOf .debit qs a ≤ balanceOf s a) := by
    intro qs hqs hqone r s' spent' h
    have hends := post_transacts hk hqs h
    constructor
    · rintro ⟨txn, rfl⟩
      exact ⟨hends.2.2.2.1, covered_of_posted hends.1 hk hqone⟩
    · rintro ⟨hfits, hcovered⟩
      cases r with
      | ok txn => exact ⟨txn, rfl⟩
      | error e =>
        rcases hends with hnot | hshort
        · exact absurd hfits hnot
        · obtain ⟨a, ha⟩ := hqone.exists_short hqs.positive hshort
          have hle := hcovered a
          omega
  refine ⟨Transacts.exists_of_inside (inside_post type referenceId ps) exists_uuid exists_answer
    s spent, ?_⟩
  intro r s' spent' h
  have hends := post_transacts hk hbal h
  refine ⟨hiff ps hbal hone r s' spent' h, ?_, ?_, ?_⟩
  · rintro txn rfl
    exact hends.1.effect hends.2.1 hends.2.2.1
  · rintro e rfl
    exact h.unchanged.1
  · intro qs hperm r₂ s₂ spent₂ h₂
    have hends₂ := post_transacts hk (hbal.perm hperm) h₂
    have hsame : (∃ txn, r₂ = .ok txn) ↔ ∃ txn, r = .ok txn := by
      rw [hiff ps hbal hone r s' spent' h,
        hiff qs (hbal.perm hperm) (hone.perm hperm) r₂ s₂ spent₂ h₂]
      constructor
      · rintro ⟨hfits, hcovered⟩
        exact ⟨hfits.perm hperm.symm, fun a => sumOf_perm .debit hperm a ▸ hcovered a⟩
      · rintro ⟨hfits, hcovered⟩
        exact ⟨hfits.perm hperm, fun a => sumOf_perm .debit hperm a ▸ hcovered a⟩
    refine ⟨hsame, ?_⟩
    intro a
    cases r with
    | error e =>
      cases r₂ with
      | error e₂ => rw [h.unchanged.1, h₂.unchanged.1]
      | ok txn₂ =>
        obtain ⟨txn, htxn⟩ := hsame.mp ⟨txn₂, rfl⟩
        contradiction
    | ok txn =>
      obtain ⟨txn₂, rfl⟩ := hsame.mpr ⟨txn, rfl⟩
      have heffect := hends.1.effect hends.2.1 hends.2.2.1
      have heffect₂ := hends₂.1.effect hends₂.2.1 hends₂.2.2.1
      have hmem : a ∈ ps.map Posting.accountId ↔ a ∈ qs.map Posting.accountId :=
        (hperm.map _).mem_iff
      by_cases ha : a ∈ ps.map Posting.accountId
      · rw [heffect.rows a ha, heffect₂.rows a (hmem.mp ha), sumOf_perm .credit hperm,
          sumOf_perm .debit hperm, uses_perm hperm]
      · rw [heffect.others a ha, heffect₂.others a fun h => ha (hmem.mpr h)]

/-- Account 3 holds the largest balance that a column takes. -/
def brimmingDatabase : Database :=
  { sampleDatabase with
    accountBalances := ⟨[⟨2, 100, 0⟩, ⟨3, 2 ^ 63 - 1, 0⟩], by decide⟩ }

theorem kept_sample : Kept sampleDatabase [] where
  nonneg := by simp [sampleDatabase]
  known := by simp [EntriesKnown, sampleDatabase, Table.empty]
  ids := by simp [sampleDatabase, Table.empty]

theorem kept_brimming : Kept brimmingDatabase [] where
  nonneg := by simp [brimmingDatabase]
  known := kept_sample.known
  ids := kept_sample.ids

/-- `amount` from account 2 to account 3. -/
def samplePostings (amount : ℤ) : List Posting := [⟨2, .debit, amount⟩, ⟨3, .credit, amount⟩]

theorem balanced_sample {amount : ℤ} (h : 0 < amount) : Balanced (samplePostings amount) where
  length := le_rfl
  positive := by simpa [samplePostings] using h
  imbalance := by simp [samplePostings, moves, imbalance, signed]

theorem oneSided_sample (amount : ℤ) : OneSided (samplePostings amount) := by
  simp [OneSided, samplePostings]

theorem post_correct_sample : ∃ r s' spent',
    Transacts (B := backend) (post .payment 9 (samplePostings 30)) sampleDatabase [] r s' spent' ∧
      (∃ txn, r = .ok txn) ∧ s'.accountBalances.find? 3 = some ⟨3, 30, 1⟩ := by
  have hcorrect := @post_correct _ _ _ .payment 9 kept_sample
    (balanced_sample (by decide : (0 : ℤ) < 30)) (oneSided_sample 30)
  obtain ⟨r, s', spent', h⟩ := hcorrect.1
  obtain ⟨hiff, heffect, -, -⟩ := hcorrect.2 r s' spent' h
  have hok : ∃ txn, r = .ok txn := by
    refine hiff.mpr ⟨⟨by decide, by decide, by decide, by decide⟩, ?_⟩
    intro a
    by_cases ha : a = 2
    · subst ha
      decide
    · have hzero : sumOf .debit (samplePostings 30) a = 0 := by
        refine sumOf_eq_zero .debit ?_
        simp [samplePostings, Ne.symm ha]
      rw [hzero]
      exact kept_sample.balance_nonneg a
  obtain ⟨txn, rfl⟩ := hok
  exact ⟨_, s', spent', h, ⟨txn, rfl⟩, (heffect txn rfl).rows 3 (by decide)⟩

/-- Account 2 covers its debit of 1, but one unit more does not fit into account 3. -/
theorem post_refused_though_covered :
    ¬ ∀ (s : Database) (spent : List Uuid) (type : TransactionType) (referenceId : Uuid)
      (ps : List Posting), Kept s spent → Balanced ps → OneSided ps → ∀ r s' spent',
      Transacts (B := backend) (post type referenceId ps) s spent r s' spent' →
      ((∃ txn, r = .ok txn) ↔ ∀ a, sumOf .debit ps a ≤ balanceOf s a) := by
  intro hall
  have hbal := balanced_sample (by decide : (0 : ℤ) < 1)
  obtain ⟨r, s', spent', h⟩ := Transacts.exists_of_inside
    (inside_post .payment 9 (samplePostings 1)) exists_uuid exists_answer brimmingDatabase []
  have hiff := hall brimmingDatabase [] .payment 9 (samplePostings 1) kept_brimming hbal
    (oneSided_sample 1) r s' spent' h
  have hok : ∃ txn, r = .ok txn := by
    refine hiff.mpr ?_
    intro a
    by_cases ha : a = 2
    · subst ha
      decide
    · have hzero : sumOf .debit (samplePostings 1) a = 0 := by
        refine sumOf_eq_zero .debit ?_
        simp [samplePostings, Ne.symm ha]
      rw [hzero]
      exact kept_brimming.balance_nonneg a
  obtain ⟨txn, rfl⟩ := hok
  have hfits := (post_transacts kept_brimming hbal h).2.2.2.1
  exact absurd (hfits.balances ⟨3, .credit, 1⟩ (by decide)) (by decide)

end Correctness

section Failure

variable {F : Frame backend} {L L' : Session backend} {type : TransactionType}
  {referenceId : Uuid} {ps : List Posting} {e : Exn}

/-- The exceptions that `post` raises itself. -/
def LedgerFailure (e : Exn) : Prop :=
  (∃ net, e = .ledgerImbalance net) ∨ (∃ message, e = .valueError message) ∨
    ∃ a balance required, e = .insufficientFunds a balance required

theorem not_ledgerFailure_of_refused (h : Refused e) : ¬ LedgerFailure e := by
  rintro (⟨n, rfl⟩ | ⟨m, rfl⟩ | ⟨a, b, r, rfl⟩) <;> simp [Refused] at h

theorem key_of_staged {ids : List Uuid} {applied : Applied} {w : Write backend}
    (h : w ∈ staged ids applied) (id : Uuid) : Key.ledgerTransaction id ≠ Row.key w.row := by
  rcases List.mem_append.mp h with h | h
  · obtain ⟨x, _, rfl⟩ := List.mem_map.mp h
    exact fun h => by contradiction
  · obtain ⟨a, _, rfl⟩ := List.mem_map.mp h
    exact fun h => by contradiction

/-- A post that stops in its loop leaves the row of its transaction behind. -/
theorem header_left {txn : LedgerTransaction} {b : BalancesMap} {L₁ : Session backend}
    (hf : F.Flushes L.flushed (L.pending ++ [.insert (.ledgerTransaction txn)]))
    (hlocked : Locked F (sortedAccountIds ps) zeroBalance b (headed L txn) L₁) :
    (F.working L).ledgerTransactions.find? txn.id = none ∧
      (F.working (looped L₁ txn ps b)).ledgerTransactions.find? txn.id = some txn := by
  constructor
  · exact Option.map_eq_none_iff.mp (Frame.get_of_flushes hf)
  · have hall : F.working (looped L₁ txn ps b) = view (F.working L₁)
        (staged (sortedAccountIds ps) (applyPostings txn.id 0 ps b)) := by
      rw [looped, Session.stageAll, Frame.working, ← List.append_assoc, view_append]
      rfl
    have hget : (F.working (looped L₁ txn ps b)).get (.ledgerTransaction txn.id) =
        some (.ledgerTransaction txn) := by
      rw [hall]
      refine (get_view_of_notMem (F.working L₁) _ (.ledgerTransaction txn.id)
        fun w hw => key_of_staged hw txn.id).trans ?_
      rw [hlocked.rest, working_headed]
      exact (F.working L).get_put_self (.ledgerTransaction txn)
    obtain ⟨t, ht, hrow⟩ := Option.map_eq_some_iff.mp hget
    cases hrow
    exact ht

/-- A failed post has refused its list before writing anything, or has left the row of
its transaction behind. -/
theorem PostStops.traces (h : PostStops F type referenceId ps L e L') (he : LedgerFailure e) :
    validateBalanced ps = .error e ∧ L' = L ∨ validateBalanced ps = .ok () ∧
      ∃ txn : LedgerTransaction, (F.working L).ledgerTransactions.find? txn.id = none ∧
        (F.working L').ledgerTransactions.find? txn.id = some txn := by
  cases h with
  | invalid hv => exact Or.inl ⟨hv, rfl⟩
  | header L' txn hv hunspent hundrawn hfails =>
    exact absurd he (not_ledgerFailure_of_refused (refused_of_flushFails hfails))
  | account L' txn hv hunspent hundrawn hf hfails =>
    obtain ⟨before, a, after, b₁, L₁, t, _, _, _, _, hrow⟩ := hfails.row
    exact absurd he (not_ledgerFailure_of_refused (refused_of_flushFails hrow))
  | shortage txn b L₁ hv hunspent hundrawn hf hlocked hfails =>
    exact Or.inr ⟨hv, txn, header_left hf hlocked⟩
  | refused L' txn b L₁ hv hunspent hundrawn hf hlocked hok hfails =>
    exact absurd he (not_ledgerFailure_of_refused (refused_of_flushFails hfails))

end Failure

end ApexPayments.Ledger
