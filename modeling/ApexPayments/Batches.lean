import ApexPayments.Resolutions

/-!
Resolving many payments one after the other. The effect of a list of resolutions on
every table is a closed form in the list, so the order of the list only shows in the
order of the journal and of the outbox.
-/
namespace ApexPayments.Service

open Domain Store Ledger Payments RowLocking DoubleEntry

section Effect

variable {s s' s₁ s₂ : Database}

/-- The row of an account after posting a list. -/
def afterPostings (s : Database) (ps : List Posting) (a : Uuid) : Option AccountBalance :=
  if a ∈ ps.map Posting.accountId then
    some ⟨a, balanceOf s a + net (moves ps) a, versionOf s a + uses ps a⟩
  else s.accountBalances.find? a

theorem rows_posted {txn : LedgerTransaction} {ps : List Posting} (h : Posted s s' txn ps)
    (a : Uuid) : s'.accountBalances.find? a = afterPostings s ps a := by
  have heffect : PostEffect txn.type txn.referenceId ps s s' txn := h.effect rfl rfl
  unfold afterPostings
  split
  · rename_i ha
    rw [heffect.rows a ha, net_moves, add_sub_assoc]
  · rename_i ha
    exact heffect.others a ha

theorem balanceOf_afterPostings {ps : List Posting}
    (h : ∀ a, s'.accountBalances.find? a = afterPostings s ps a) (a : Uuid) :
    balanceOf s' a = balanceOf s a + net (moves ps) a := by
  by_cases ha : a ∈ ps.map Posting.accountId
  · have hrow := h a
    rw [afterPostings, if_pos ha] at hrow
    exact balanceOf_of_find hrow
  · have hzero : net (moves ps) a = 0 := net_of_notMem _ _ (by simpa [moves] using ha)
    rw [hzero, add_zero]
    unfold balanceOf
    rw [h a, afterPostings, if_neg ha]

theorem versionOf_afterPostings {ps : List Posting}
    (h : ∀ a, s'.accountBalances.find? a = afterPostings s ps a) (a : Uuid) :
    versionOf s' a = versionOf s a + uses ps a := by
  by_cases ha : a ∈ ps.map Posting.accountId
  · have hrow := h a
    rw [afterPostings, if_pos ha] at hrow
    exact versionOf_of_find hrow
  · have hzero : uses ps a = 0 := List.count_eq_zero.mpr ha
    rw [hzero, Nat.cast_zero, add_zero]
    unfold versionOf
    rw [h a, afterPostings, if_neg ha]

theorem net_moves_append (ps qs : List Posting) (a : Uuid) :
    net (moves (ps ++ qs)) a = net (moves ps) a + net (moves qs) a := by
  rw [moves, List.map_append, net_append]
  rfl

theorem uses_append (ps qs : List Posting) (a : Uuid) : uses (ps ++ qs) a = uses ps a + uses qs a := by
  simp [uses]

/-- Posting two lists one after the other is posting them together. -/
theorem afterPostings_append {ps qs : List Posting}
    (h : ∀ a, s'.accountBalances.find? a = afterPostings s ps a) (a : Uuid) :
    afterPostings s' qs a = afterPostings s (ps ++ qs) a := by
  unfold afterPostings
  rw [balanceOf_afterPostings h, versionOf_afterPostings h, net_moves_append, uses_append,
    List.map_append, h a]
  unfold afterPostings
  by_cases hq : a ∈ qs.map Posting.accountId
  · rw [if_pos hq, if_pos (List.mem_append_right _ hq)]
    push_cast
    rw [add_assoc, add_assoc]
  · have hnet : net (moves qs) a = 0 := net_of_notMem _ _ (by simpa [moves] using hq)
    have huses : uses qs a = 0 := List.count_eq_zero.mpr hq
    rw [if_neg hq, hnet, huses, add_zero, add_zero]
    by_cases hp : a ∈ ps.map Posting.accountId
    · rw [if_pos hp, if_pos (List.mem_append_left _ hp)]
    · rw [if_neg hp, if_neg (by simp only [List.mem_append, hp, hq, or_self, not_false_eq_true])]

theorem afterPostings_perm {ps qs : List Posting} (h : ps.Perm qs) (a : Uuid) :
    afterPostings s ps a = afterPostings s qs a := by
  unfold afterPostings
  rw [net_moves_perm h, uses_perm h]
  exact if_congr (h.map _).mem_iff rfl rfl

/-- A ledger transaction up to its identifier. -/
structure JournalLine where
  type : TransactionType
  referenceId : Uuid
  postings : List Posting
  deriving DecidableEq

/-- The ledger transactions with their postings, in the order of posting. -/
def journal (s : Database) : List JournalLine :=
  s.ledgerTransactions.rows.map fun t => ⟨t.type, t.referenceId, postingsOf s t.id⟩

theorem journal_posted {txn : LedgerTransaction} {ps : List Posting} (h : Posted s s' txn ps)
    (hk : EntriesKnown s) : journal s' = journal s ++ [⟨txn.type, txn.referenceId, ps⟩] := by
  unfold journal
  rw [h.txns, List.map_append, List.map_singleton, postingsOf_new h hk]
  congr 1
  refine List.map_congr_left ?_
  intro t ht
  have hne : t.id ≠ txn.id := by
    intro hsame
    have hsome := Table.find?_of_mem ht
    rw [hsame, h.fresh] at hsome
    contradiction
  rw [postingsOf_posted h hne]

/-- An outbox row up to its identifier and its time. -/
structure Announcement where
  aggregateType : String
  aggregateId : Uuid
  eventType : String
  payload : List (String × Json)
  publishedAt : Option Time

def announcementOf (event : Outbox) : Announcement :=
  ⟨event.aggregateType, event.aggregateId, event.eventType, event.payload, event.publishedAt⟩

def announcements (s : Database) : List Announcement := s.outbox.rows.map announcementOf

/-- A payment together with what is to be done with it. -/
abbrev Order := Payment × Resolution

def postingsFor (r : Order) : List Posting := (r.2.transfer (r.2.update r.1)).postings

def postingsAll (rs : List Order) : List Posting := rs.flatMap postingsFor

def journalLine (r : Order) : JournalLine :=
  ⟨(r.2.transfer (r.2.update r.1)).type, r.1.id, postingsFor r⟩

def announcementFor (r : Order) : Announcement :=
  let t := r.2.transfer (r.2.update r.1)
  ⟨t.aggregateType, r.1.id, t.eventType, t.payload, none⟩

/-- What a list of resolutions has done to the tables. -/
structure BatchEffect (rs : List Order) (s s' : Database) : Prop where
  rows : ∀ a, s'.accountBalances.find? a = afterPostings s (postingsAll rs) a
  resolved : ∀ r ∈ rs, s'.payments.find? r.1.id = some (r.2.update r.1)
  others : ∀ i, i ∉ rs.map (·.1.id) → s'.payments.find? i = s.payments.find? i
  journal : journal s' = journal s ++ rs.map journalLine
  announcements : announcements s' = announcements s ++ rs.map announcementFor
  accounts : s'.accounts = s.accounts
  refunds : s'.refunds = s.refunds
  idempotencyKeys : s'.idempotencyKeys = s.idempotencyKeys
  webhookEvents : s'.webhookEvents = s.webhookEvents

theorem BatchEffect.nil (s : Database) : BatchEffect [] s s where
  rows := fun _ => rfl
  resolved := by simp
  others := fun _ _ => rfl
  journal := (List.append_nil _).symm
  announcements := (List.append_nil _).symm
  accounts := rfl
  refunds := rfl
  idempotencyKeys := rfl
  webhookEvents := rfl

/-- One resolution in front of the others. -/
theorem BatchEffect.cons {r : Order} {rs : List Order} {txn : LedgerTransaction} {event : Outbox}
    (hnew : r.1.id ∉ rs.map (·.1.id)) (hk : EntriesKnown s)
    (h : Transferred (r.2.transfer (r.2.update r.1)) txn event
      (s.put (.payment (r.2.update r.1))) s₁)
    (hrest : BatchEffect rs s₁ s₂) : BatchEffect (r :: rs) s s₂ := by
  have hrecords := h.same
  have hfresh := h.fresh
  have hannounced := h.announced
  obtain ⟨s₀, hp, rfl⟩ := h.posted
  have houtbox : s₀.outbox = s.outbox := by
    have hs := hp.elsewhere
    unfold SameElsewhere at hs
    rw [hs]
    rfl
  have hrows : ∀ a, (s₀.put (.outbox event)).accountBalances.find? a =
      afterPostings s (postingsFor r) a := by
    intro a
    have hrow := rows_posted hp a
    exact hrow
  have hid : (r.2.update r.1).id = r.1.id := r.2.id_update r.1
  refine ⟨?_, ?_, ?_, ?_, ?_, hrest.accounts.trans hrecords.accounts,
    hrest.refunds.trans hrecords.refunds, hrest.idempotencyKeys.trans hrecords.idempotencyKeys,
    hrest.webhookEvents.trans hrecords.webhookEvents⟩
  · intro a
    rw [hrest.rows a, afterPostings_append hrows]
    rfl
  · intro q hq
    rcases List.mem_cons.mp hq with rfl | hq
    · rw [hrest.others _ hnew, hrecords.payments, ← hid]
      exact s.payments.find?_put_self _
    · exact hrest.resolved q hq
  · intro i hi
    rw [List.map_cons, List.mem_cons, not_or] at hi
    rw [hrest.others i hi.2, hrecords.payments]
    exact s.payments.find?_put_of_ne _ i (by rw [hid]; exact hi.1)
  · have hline : Service.journal (s₀.put (.outbox event)) = Service.journal s ++ [journalLine r] := by
      have hj := journal_posted hp hk
      rw [h.type, h.reference, r.2.reference_transfer] at hj
      exact hj
    rw [hrest.journal, hline, List.append_assoc]
    rfl
  · have hevent : announcementOf event = announcementFor r := by
      rw [hannounced]
      simp only [announcementOf, announcementFor, r.2.reference_transfer]
    have hput : (s₀.put (.outbox event)).outbox.rows = s.outbox.rows ++ [event] := by
      have hnone : s₀.outbox.find? event.id = none := by
        rw [houtbox]
        exact hfresh
      rw [← houtbox]
      exact s₀.outbox.rows_put_new event hnone
    rw [hrest.announcements, Service.announcements, hput, List.map_append, List.append_assoc]
    rw [List.map_singleton, hevent]
    rfl

theorem postingsAll_perm {rs rs' : List Order} (h : rs.Perm rs') :
    (postingsAll rs).Perm (postingsAll rs') := h.flatMap_right postingsFor

/-- Resolutions in any order lead to the same tables up to the order of the journal and
the outbox. -/
theorem BatchEffect.perm {rs rs' : List Order} (h : BatchEffect rs s s₁)
    (h' : BatchEffect rs' s s₂) (hperm : rs.Perm rs') :
    (∀ a, s₁.accountBalances.find? a = s₂.accountBalances.find? a) ∧
      (∀ i, s₁.payments.find? i = s₂.payments.find? i) ∧
      (Service.journal s₁).Perm (Service.journal s₂) ∧
      (Service.announcements s₁).Perm (Service.announcements s₂) := by
  refine ⟨?_, ?_, ?_, ?_⟩
  · intro a
    rw [h.rows a, h'.rows a, afterPostings_perm (postingsAll_perm hperm)]
  · intro i
    have hmem : i ∈ rs.map (·.1.id) ↔ i ∈ rs'.map (·.1.id) := (hperm.map _).mem_iff
    by_cases hi : i ∈ rs.map (·.1.id)
    · obtain ⟨r, hr, rfl⟩ := List.mem_map.mp hi
      rw [h.resolved r hr, h'.resolved r (hperm.mem_iff.mp hr)]
    · rw [h.others i hi, h'.others i fun h => hi (hmem.mpr h)]
  · rw [h.journal, h'.journal]
    exact (hperm.map _).append_left _
  · rw [h.announcements, h'.announcements]
    exact (hperm.map _).append_left _

end Effect

section Conditions

variable {s s₁ : Database} {spent : List Uuid} {rs : List Order}

/-- The suspense account covers all amounts, and no row leaves the range of its columns. -/
structure Affordable (rs : List Order) (s : Database) : Prop where
  positive : ∀ r ∈ rs, 0 < r.1.amount
  row : ∀ r ∈ rs, s.violation (.payment (r.2.update r.1)) = none
  accounts : ∀ r ∈ rs, ∀ q ∈ postingsFor r, s.hasAccount q.accountId = true
  stored : ∀ a, bigint (balanceOf s a) = true ∧ bigint (versionOf s a) = true
  balances : ∀ a, bigint (balanceOf s a + net (moves (postingsAll rs)) a) = true
  versions : ∀ a, bigint (versionOf s a + uses (postingsAll rs) a) = true
  funded : (rs.map (·.1.amount)).sum ≤ balanceOf s suspenseAccountId

/-- The conditions under which a list of resolutions goes through. -/
structure Payable (rs : List Order) (s : Database) : Prop extends Affordable rs s where
  found : ∀ r ∈ rs, s.payments.find? r.1.id = some r.1
  nodup : (rs.map (·.1.id)).Nodup

theorem Affordable.perm {rs' : List Order} (h : Affordable rs s) (hperm : rs.Perm rs') :
    Affordable rs' s where
  positive := fun r hr => h.positive r (hperm.mem_iff.mpr hr)
  row := fun r hr => h.row r (hperm.mem_iff.mpr hr)
  accounts := fun r hr => h.accounts r (hperm.mem_iff.mpr hr)
  stored := h.stored
  balances := by
    intro a
    rw [← net_moves_perm (postingsAll_perm hperm)]
    exact h.balances a
  versions := by
    intro a
    rw [← uses_perm (postingsAll_perm hperm)]
    exact h.versions a
  funded := by
    rw [← (hperm.map _).sum_eq]
    exact h.funded

theorem Payable.perm {rs' : List Order} (h : Payable rs s) (hperm : rs.Perm rs') :
    Payable rs' s where
  toAffordable := h.toAffordable.perm hperm
  found := fun r hr => h.found r (hperm.mem_iff.mpr hr)
  nodup := (hperm.map _).nodup_iff.mp h.nodup

theorem postingsFor_eq (r : Order) : postingsFor r =
    [⟨suspenseAccountId, .debit, r.1.amount⟩, ⟨r.2.beneficiary r.1, .credit, r.1.amount⟩] :=
  r.2.postings_transfer r.1

theorem postingsAll_cons (r : Order) (rs : List Order) :
    postingsAll (r :: rs) = postingsFor r ++ postingsAll rs := rfl

/-- What one resolution adds to an account. -/
theorem net_postingsFor (r : Order) (a : Uuid) : net (moves (postingsFor r)) a =
    (if r.2.beneficiary r.1 = a then r.1.amount else 0) -
      if suspenseAccountId = a then r.1.amount else 0 := by
  rw [postingsFor_eq]
  simp only [moves, List.map_cons, List.map_nil, net_cons, net_nil, signed]
  split_ifs <;> ring

/-- Outside the suspense account money is only received. -/
theorem net_postingsAll_nonneg (hpos : ∀ r ∈ rs, 0 < r.1.amount) {a : Uuid}
    (ha : a ≠ suspenseAccountId) : 0 ≤ net (moves (postingsAll rs)) a := by
  induction rs with
  | nil => exact le_rfl
  | cons r rs ih =>
    have hr := hpos r (List.mem_cons_self ..)
    have hrest := ih fun q hq => hpos q (List.mem_cons_of_mem _ hq)
    rw [postingsAll_cons, net_moves_append, net_postingsFor, if_neg (Ne.symm ha)]
    split_ifs <;> omega

/-- The suspense account pays out no more than all amounts. -/
theorem net_postingsAll_suspense (hpos : ∀ r ∈ rs, 0 < r.1.amount) :
    -(rs.map (·.1.amount)).sum ≤ net (moves (postingsAll rs)) suspenseAccountId := by
  induction rs with
  | nil => exact le_rfl
  | cons r rs ih =>
    have hr := hpos r (List.mem_cons_self ..)
    have hrest := ih fun q hq => hpos q (List.mem_cons_of_mem _ hq)
    rw [postingsAll_cons, net_moves_append, net_postingsFor, if_pos rfl, List.map_cons,
      List.sum_cons]
    split_ifs <;> omega

theorem sum_amounts_nonneg (hpos : ∀ r ∈ rs, 0 < r.1.amount) : 0 ≤ (rs.map (·.1.amount)).sum := by
  refine List.sum_nonneg ?_
  intro x hx
  obtain ⟨r, hr, rfl⟩ := List.mem_map.mp hx
  exact (hpos r hr).le

theorem bigint_iff (x : ℤ) : bigint x = true ↔ -2 ^ 63 ≤ x ∧ x < 2 ^ 63 := by simp [bigint]

theorem bigint_between {x y z : ℤ} (hx : bigint x = true) (hz : bigint z = true) (hxy : x ≤ y)
    (hyz : y ≤ z) : bigint y = true := by
  rw [bigint_iff] at hx hz ⊢
  omega

/-- The first resolution of the list goes through. -/
theorem Payable.head {r : Order} (h : Payable (r :: rs) s) : Passes s r.2 r.1 := by
  have hpos := h.positive r (List.mem_cons_self ..)
  have hposAll := fun q hq => h.positive q (List.mem_cons_of_mem _ hq)
  have hsum := sum_amounts_nonneg hposAll
  have hfunded := h.funded
  rw [List.map_cons, List.sum_cons] at hfunded
  have hamount : bigint r.1.amount = true := by
    have hall := (firstFailing_eq_none_iff _).mp (h.row r (List.mem_cons_self ..))
    have hcheck := hall (bigint (r.2.update r.1).amount, .dataError "amount")
      (by simp [Database.checks])
    rwa [r.2.amount_update] at hcheck
  refine ⟨hpos, h.row r (List.mem_cons_self ..), ⟨?_, ?_, ?_, ?_⟩, by omega⟩
  · exact h.accounts r (List.mem_cons_self ..)
  · intro q hq
    have hq' : q ∈ postingsFor r := hq
    rw [postingsFor_eq, List.mem_cons, List.mem_singleton] at hq'
    rcases hq' with rfl | rfl <;> exact hamount
  · intro q _
    change bigint (balanceOf s q.accountId + net (moves (postingsFor r)) q.accountId) = true
    generalize q.accountId = a
    have hstored := (h.stored a).1
    have hfinal := h.balances a
    rw [postingsAll_cons, net_moves_append] at hfinal
    by_cases ha : a = suspenseAccountId
    · subst ha
      have hzero : bigint 0 = true := by decide
      rw [net_postingsFor, if_pos rfl]
      split_ifs
      · rw [sub_self, add_zero]
        exact hstored
      · exact bigint_between hzero hstored (by omega) (by omega)
    · have hrest := net_postingsAll_nonneg hposAll ha
      have hfor : 0 ≤ net (moves (postingsFor r)) a := by
        rw [net_postingsFor, if_neg (Ne.symm ha)]
        split_ifs <;> omega
      exact bigint_between hstored hfinal (by omega) (by omega)
  · intro q _
    change bigint (versionOf s q.accountId + uses (postingsFor r) q.accountId) = true
    have hfinal := h.versions q.accountId
    rw [postingsAll_cons, uses_append] at hfinal
    push_cast at hfinal
    exact bigint_between (h.stored q.accountId).2 hfinal (by omega) (by omega)

theorem violation_payment_congr {p : Payment} (h : s₁.accounts = s.accounts) :
    s₁.violation (.payment p) = s.violation (.payment p) := by
  unfold Database.violation
  simp only [Database.checks, Database.hasAccount, h]

/-- After the first resolution the others still go through. -/
theorem Payable.tail {r : Order} (h : Payable (r :: rs) s) (heffect : BatchEffect [r] s s₁) :
    Payable rs s₁ := by
  have hrows : ∀ a, s₁.accountBalances.find? a = afterPostings s (postingsFor r) a := by
    intro a
    rw [heffect.rows a, postingsAll_cons]
    exact congrArg (fun ps => afterPostings s ps a) (List.append_nil _)
  have hbalance := balanceOf_afterPostings hrows
  have hversion := versionOf_afterPostings hrows
  obtain ⟨hnew, hnodup⟩ := List.nodup_cons.mp h.nodup
  have hhead := h.head
  refine ⟨⟨fun q hq => h.positive q (List.mem_cons_of_mem _ hq), ?_, ?_, ?_, ?_, ?_, ?_⟩, ?_, hnodup⟩
  · intro q hq
    rw [violation_payment_congr heffect.accounts]
    exact h.row q (List.mem_cons_of_mem _ hq)
  · intro q hq p hp
    unfold Database.hasAccount
    rw [heffect.accounts]
    exact h.accounts q (List.mem_cons_of_mem _ hq) p hp
  · intro a
    rw [hbalance, hversion]
    by_cases ha : a ∈ (postingsFor r).map Posting.accountId
    · obtain ⟨q, hq, rfl⟩ := List.mem_map.mp ha
      exact ⟨hhead.fits.balances q hq, hhead.fits.versions q hq⟩
    · have hnet : net (moves (postingsFor r)) a = 0 := net_of_notMem _ _ (by simpa [moves] using ha)
      have huses : uses (postingsFor r) a = 0 := List.count_eq_zero.mpr ha
      rw [hnet, huses, Nat.cast_zero, add_zero, add_zero]
      exact h.stored a
  · intro a
    rw [hbalance, add_assoc, ← net_moves_append]
    exact h.balances a
  · intro a
    rw [hversion, add_assoc, ← Nat.cast_add, ← uses_append]
    exact h.versions a
  · have hfunded := h.funded
    have hpos := h.positive r (List.mem_cons_self ..)
    rw [List.map_cons, List.sum_cons] at hfunded
    rw [hbalance, net_postingsFor, if_pos rfl]
    split_ifs <;> omega
  · intro q hq
    rw [heffect.others q.1.id ?_]
    · exact h.found q (List.mem_cons_of_mem _ hq)
    · intro hmem
      have hsame : q.1.id = r.1.id := by simpa using hmem
      exact hnew (List.mem_map.mpr ⟨q, hq, hsame⟩)

end Conditions

section Orders

variable {s s' : Database} {spent spent' : List Uuid} {rs : List Order}

/-- The transaction that carries out one order. -/
def carryOut (r : Order) : Program Payment := r.2.program r.1.id

theorem BatchEffect.single {r : Order} {txn : LedgerTransaction} {event : Outbox}
    (hk : EntriesKnown s) (h : Transferred (r.2.transfer (r.2.update r.1)) txn event
      (s.put (.payment (r.2.update r.1))) s') : BatchEffect [r] s s' :=
  BatchEffect.cons (by simp) hk h (BatchEffect.nil s')

/-- Orders that meet the conditions are all carried out. -/
theorem carriedOut {es : List (Served backend Order Payment)} (hs : Consistent s spent)
    (hpay : Payable (es.map Served.call) s) (h : Serial carryOut s spent es s' spent') :
    (∀ e ∈ es, e.result = .ok (e.call.2.update e.call.1)) ∧
      BatchEffect (es.map Served.call) s s' := by
  induction es generalizing s spent with
  | nil =>
    obtain ⟨rfl, -⟩ := h.of_nil
    exact ⟨by simp, BatchEffect.nil s'⟩
  | cons e es ih =>
    obtain ⟨spent₁, -, htransacts, hrest⟩ := h.of_cons
    have hends := resolve_transacts hs htransacts
    have hfound := hpay.found e.call (List.mem_cons_self ..)
    cases hr : e.result with
    | error err =>
      rw [hr] at hends
      exact absurd hpay.head (hends.2.2 _ hfound)
    | ok q =>
      rw [hr] at hends
      obtain ⟨p, txn, event, hp, rfl, -, htransferred, -⟩ := hends
      obtain rfl := Option.some.inj (hfound.symm.trans hp)
      have htail := hpay.tail (BatchEffect.single hs.known htransferred)
      obtain ⟨hok, heffect⟩ := ih (consistent_of_resolve hs htransacts) htail hrest
      refine ⟨?_, BatchEffect.cons (List.nodup_cons.mp hpay.nodup).1 hs.known htransferred heffect⟩
      intro e' he'
      rcases List.mem_cons.mp he' with rfl | he'
      · exact hr
      · exact hok e' he'

/-- The order in which held payments are resolved does not matter. -/
theorem resolutions_commute (hs : Consistent s spent) (hpay : Payable rs s) {rs' : List Order}
    (hperm : rs.Perm rs') :
    (∃ es s' spent', Serial carryOut s spent es s' spent' ∧ es.map Served.call = rs') ∧
    ∀ es s₁ spent₁ es' s₂ spent₂, Serial carryOut s spent es s₁ spent₁ →
      es.map Served.call = rs → Serial carryOut s spent es' s₂ spent₂ →
      es'.map Served.call = rs' →
      (∀ e ∈ es ++ es', e.result = .ok (e.call.2.update e.call.1)) ∧
      (∀ a, s₁.accountBalances.find? a = s₂.accountBalances.find? a) ∧
      (∀ i, s₁.payments.find? i = s₂.payments.find? i) ∧
      (journal s₁).Perm (journal s₂) ∧ (announcements s₁).Perm (announcements s₂) := by
  refine ⟨Serial.exists_of_inside (fun r : Order => r.2.inside_program r.1.id) exists_uuid
    exists_answer rs' s spent, ?_⟩
  rintro es s₁ spent₁ es' s₂ spent₂ h rfl h' rfl
  obtain ⟨hok, heffect⟩ := carriedOut hs hpay h
  obtain ⟨hok', heffect'⟩ := carriedOut hs (hpay.perm hperm) h'
  refine ⟨?_, heffect.perm heffect' hperm⟩
  intro e he
  exact (List.mem_append.mp he).elim (hok e) (hok' e)

/-- Payments 7 and 8 wait for their resolutions, with 100 in the suspense account. -/
def pairDatabase : Database :=
  { sampleDatabase with
    accountBalances := ⟨[⟨suspenseAccountId, 100, 0⟩], by decide⟩
    payments := ⟨[samplePayment .authorized, { samplePayment .authorized with id := 8 }],
      by decide⟩ }

/-- The first payment is to be settled, the second reversed. -/
def sampleOrders : List Order :=
  [(samplePayment .authorized, .settle "psp"),
    ({ samplePayment .authorized with id := 8 }, .reverse)]

theorem consistent_pair : Consistent pairDatabase [] where
  nonneg := by simp [pairDatabase]
  known := kept_sample.known
  ids := kept_sample.ids
  events := by simp [pairDatabase, sampleDatabase, Table.empty]

theorem stored_of_rows {s : Database}
    (h : ∀ b ∈ s.accountBalances.rows, bigint b.balance = true ∧ bigint b.version = true)
    (a : Uuid) : bigint (balanceOf s a) = true ∧ bigint (versionOf s a) = true := by
  unfold balanceOf versionOf
  cases hrow : s.accountBalances.find? a with
  | none => exact ⟨rfl, rfl⟩
  | some b => exact h b (Table.mem_of_find? hrow)

/-- Only the accounts of the postings have to be looked at. -/
theorem fits_of_touched {s : Database} {ps : List Posting}
    (hstored : ∀ a, bigint (balanceOf s a) = true ∧ bigint (versionOf s a) = true)
    (h : ∀ a ∈ ps.map Posting.accountId, bigint (balanceOf s a + net (moves ps) a) = true ∧
      bigint (versionOf s a + uses ps a) = true) (a : Uuid) :
    bigint (balanceOf s a + net (moves ps) a) = true ∧
      bigint (versionOf s a + uses ps a) = true := by
  by_cases ha : a ∈ ps.map Posting.accountId
  · exact h a ha
  · have hnet : net (moves ps) a = 0 := net_of_notMem _ _ (by simpa [moves] using ha)
    have huses : uses ps a = 0 := List.count_eq_zero.mpr ha
    rw [hnet, huses, Nat.cast_zero, add_zero, add_zero]
    exact hstored a

theorem payable_pair : Payable sampleOrders pairDatabase where
  found := by decide
  nodup := by decide
  positive := by decide
  row := by decide
  accounts := by decide
  stored := stored_of_rows (by decide)
  balances := fun a => (fits_of_touched (stored_of_rows (by decide)) (by decide) a).1
  versions := fun a => (fits_of_touched (stored_of_rows (by decide)) (by decide) a).2
  funded := by decide

theorem resolutions_commute_sample : ∃ es s' spent',
    Serial carryOut pairDatabase [] es s' spent' ∧ es.map Served.call = sampleOrders.reverse ∧
      ∀ e ∈ es, e.result = .ok (e.call.2.update e.call.1) := by
  have hcommute := resolutions_commute consistent_pair payable_pair sampleOrders.reverse_perm.symm
  obtain ⟨es, s', spent', h, hcalls⟩ := hcommute.1
  obtain ⟨es₀, s₀, spent₀, h₀, hcalls₀⟩ := (resolutions_commute consistent_pair payable_pair
    (List.Perm.refl sampleOrders)).1
  refine ⟨es, s', spent', h, hcalls, ?_⟩
  intro e he
  have hboth := hcommute.2 es₀ s₀ spent₀ es s' spent' h₀ hcalls₀ h hcalls
  exact hboth.1 e (List.mem_append_right _ he)

/-- The sample payment, with a payee whose balance is the largest that its column holds. -/
def brimmingPayee : Database :=
  { paymentDatabase .authorized with
    accountBalances := ⟨[⟨suspenseAccountId, 50, 0⟩, ⟨3, 2 ^ 63 - 1, 0⟩], by decide⟩ }

theorem consistent_brimmingPayee : Consistent brimmingPayee [] where
  nonneg := by simp [brimmingPayee]
  known := kept_sample.known
  ids := kept_sample.ids
  events := (consistent_payment .authorized).events

/-- The order is about a held payment whose amount the suspense account covers, and
carrying it out raises an error. -/
def RefusedThoughCovered (s : Database) (r : Order) : Prop :=
  s.payments.find? r.1.id = some r.1 ∧ Payment.inFlight r.1 = true ∧
    r.1.amount ≤ balanceOf s suspenseAccountId ∧
    ∃ e s' spent', Serial carryOut s [] [⟨r, s, .error e, s'⟩] s' spent'

/-- An order that does not meet its conditions is refused. -/
theorem refused_of_not_passes {r : Order} (hs : Consistent s spent)
    (hfound : s.payments.find? r.1.id = some r.1) (hnot : ¬ Passes s r.2 r.1) :
    ∃ e s' spent', Serial carryOut s spent [⟨r, s, .error e, s'⟩] s' spent' := by
  obtain ⟨es, s', spent', h, hcalls⟩ := Serial.exists_of_inside
    (fun r : Order => r.2.inside_program r.1.id) exists_uuid exists_answer [r] s spent
  obtain ⟨⟨c, before, result, after⟩, rfl, hcall⟩ := List.map_eq_singleton_iff.mp hcalls
  obtain rfl : c = r := hcall
  obtain ⟨spent₁, hbefore, htransacts, hrest⟩ := h.of_cons
  obtain rfl : before = s := hbefore
  obtain ⟨hafter, -⟩ := hrest.of_nil
  have hafter' : after = s' := hafter.symm
  subst hafter'
  have hends := resolve_transacts hs htransacts
  cases hr : result with
  | error e =>
    subst hr
    exact ⟨e, after, spent', h⟩
  | ok q =>
    rw [show (Served.mk c before result after).result = .ok q from hr] at hends
    obtain ⟨p, -, -, hp, -, hpasses, -⟩ := hends
    rw [← Option.some.inj (hfound.symm.trans hp)] at hpasses
    exact absurd hpasses hnot

/-- A settlement is refused when its reference is too long for its column, and when the
payee's balance would be too large for its own. -/
theorem covered_settlements_refused :
    RefusedThoughCovered (paymentDatabase .authorized) (samplePayment .authorized,
      .settle (String.ofList (List.replicate 256 'a'))) ∧
    RefusedThoughCovered brimmingPayee (samplePayment .authorized, .settle "psp") := by
  constructor
  · refine ⟨find_payment .authorized, rfl, by decide, ?_⟩
    apply refused_of_not_passes (consistent_payment .authorized) (find_payment .authorized)
    intro hpasses
    have hlength := (decide_eq_true_iff.mp hpasses.reference).1
    rw [String.length_ofList, List.length_replicate] at hlength
    omega
  · refine ⟨find_payment .authorized, rfl, by decide, ?_⟩
    apply refused_of_not_passes (r := (samplePayment .authorized, .settle "psp"))
      consistent_brimmingPayee (find_payment .authorized)
    intro hpasses
    have hfits := hpasses.fits.balances ⟨3, .credit, 50⟩ (by decide)
    exact absurd hfits (by decide)

end Orders

end ApexPayments.Service
