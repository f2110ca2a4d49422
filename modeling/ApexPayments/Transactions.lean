import ApexPayments.Transfers
import ApexPayments.Service

/-!
What the transactions of all calls have in common: the moves of a payment, the facts
a session keeps about its inserted rows, the locked lookup of payments and the
commit at the end of a transaction block.
-/
namespace ApexPayments.Service

open Domain Store Ledger Payments Webhooks Relay RowLocking

variable {F : Frame backend}

section Moves

/-- The identifiers that are no longer new for the session. -/
def usedBy (F : Frame backend) (L : Session backend) : List Uuid := L.drawn ++ F.spent

/-- A payment row gets a new state and its money moves accordingly. -/
inductive Moved (used : List Uuid) (s : Database) (p : Payment) :
    Payment → List Uuid → Database → Prop
  | settled (r : String) (txn : LedgerTransaction) (event : Outbox) (s' : Database)
      (ht : txn.id ∉ used) (he : event.id ∉ txn.id :: used)
      (h : Transferred (settleOf (settled r p) r) txn event (s.put (.payment (settled r p))) s') :
      Moved used s p (settled r p) [event.id, txn.id] s'
  | reversed (txn : LedgerTransaction) (event : Outbox) (s' : Database)
      (ht : txn.id ∉ used) (he : event.id ∉ txn.id :: used)
      (h : Transferred (reverseOf (reversed p)) txn event (s.put (.payment (reversed p))) s') :
      Moved used s p (reversed p) [event.id, txn.id] s'
  | awaiting (r : Option String) :
      Moved used s p (awaiting r p) [] (s.put (.payment (awaiting r p)))

theorem Moved.same {used ids : List Uuid} {s s' : Database} {p q : Payment}
    (h : Moved used s p q ids s') : SameRecords (s.put (.payment q)) s' := by
  cases h with
  | settled r txn event _ ht he h => exact h.same
  | reversed txn event _ ht he h => exact h.same
  | awaiting r => exact ⟨rfl, rfl, rfl, rfl, rfl, fun _ _ he => he⟩

theorem Moved.find_of_ne {used ids : List Uuid} {s s' : Database} {p q : Payment}
    (h : Moved used s p q ids s') {id : Uuid} (hid : id ≠ q.id) :
    s'.payments.find? id = s.payments.find? id := by
  rw [h.same.payments]
  exact s.payments.find?_put_of_ne q id hid

theorem Moved.find_self {used ids : List Uuid} {s s' : Database} {p q : Payment}
    (h : Moved used s p q ids s') : s'.payments.find? q.id = some q := by
  rw [h.same.payments]
  exact s.payments.find?_put_self q

/-- The session kept the facts about its inserted rows. -/
structure Keeps (F : Frame backend) (L L' : Session backend) : Prop where
  opened : opened L' = opened L
  sealed : Sealed F L → Sealed F L'

theorem Keeps.trans {L₁ L₂ L₃ : Session backend} (h : Keeps F L₁ L₂) (h' : Keeps F L₂ L₃) :
    Keeps F L₁ L₃ :=
  ⟨h'.opened.trans h.opened, fun hs => h'.sealed (h.sealed hs)⟩

theorem Keeps.refl (L : Session backend) : Keeps F L L := ⟨rfl, fun h => h⟩

theorem keeps_stage {L : Session backend} {w : Write backend} (ho : insertedPayments [w] = [])
    (hw : OutsideLedger w.row) : Keeps F L (L.stage w) :=
  ⟨by rw [opened_stage, ho, List.append_nil], fun h => h.stage hw⟩

theorem keeps_flushAll (L : Session backend) : Keeps F L L.flushAll :=
  ⟨opened_flushAll L, fun h => h.flushAll⟩

theorem keeps_draw (L : Session backend) (i : Uuid) : Keeps F L (L.draw i) :=
  ⟨rfl, fun h => ⟨h.known, h.nets⟩⟩

theorem keeps_hold (L : Session backend) (k : Key) : Keeps F L (L.hold k) :=
  ⟨rfl, fun h => ⟨h.known, h.nets⟩⟩

theorem keeps_see (L : Session backend) (s : Database) : Keeps F L (L.see s) :=
  ⟨rfl, fun h => ⟨h.known, h.nets⟩⟩

theorem keeps_claim {L L' : Session backend} {r : IdempotencyRecord} (h : Claimed F r L L')
    (hp : L.pending = []) : Keeps F L L' := by
  have hall : L'.flushed ++ L'.pending = L.flushed ++ L.pending ++ [.insert (.idempotencyRecord r)] := by
    rw [h.flushed, h.pending, hp, List.append_nil, List.append_nil]
  have hstage : Keeps F L (L.stage (.insert (.idempotencyRecord r))) := keeps_stage rfl trivial
  constructor
  · rw [opened, hall]
    have ho := hstage.opened
    rwa [opened, Session.stage, ← List.append_assoc] at ho
  · intro hs
    have hsealed := hstage.sealed hs
    refine ⟨?_, ?_⟩
    · rw [h.working]
      have hk := hsealed.known
      rwa [Frame.working_stage] at hk
    · rw [h.working, hall]
      have hn := hsealed.nets
      rwa [Frame.working_stage, Session.stage, ← List.append_assoc] at hn

theorem keeps_complete {L : Session backend} {m k : String} (s : Database)
    (r : IdempotencyRecord) : Keeps F L (((L.see s).hold (.idempotencyRecord m k)).stage
      (.update (.idempotencyRecord r))).flushAll := by
  have hstage : Keeps F ((L.see s).hold (.idempotencyRecord m k))
      (((L.see s).hold (.idempotencyRecord m k)).stage (.update (.idempotencyRecord r))) :=
    keeps_stage rfl trivial
  exact (((keeps_see L s).trans (keeps_hold _ _)).trans hstage).trans (keeps_flushAll _)

theorem keeps_transfer {t : Transfer} {L L' : Session backend} {txn : LedgerTransaction}
    {event : Outbox} (h : TransferReturns F t L txn event L') : Keeps F L L' :=
  ⟨h.opened, h.sealed⟩

theorem keeps_resolve {id : Uuid} {q : Payment → Payment} {t : Payment → Transfer}
    {L L' : Session backend} {p : Payment} {txn : LedgerTransaction} {event : Outbox}
    (h : ResolveReturns F id q t L p txn event L') : Keeps F L L' :=
  have hstage : Keeps F (L.hold (.payment id))
      ((L.hold (.payment id)).stage (.update (.payment (q p)))) := keeps_stage rfl trivial
  ((keeps_hold L (.payment id)).trans hstage).trans (keeps_transfer h.transfer)

theorem used_of_transfer {t : Transfer} {L L' : Session backend} {txn : LedgerTransaction}
    {event : Outbox} (h : TransferReturns F t L txn event L') :
    txn.id ∉ usedBy F L ∧ event.id ∉ txn.id :: usedBy F L ∧
      usedBy F L' = [event.id, txn.id] ++ usedBy F L := by
  have hd := h.drawn
  have h₁ := h.txn_unspent
  have h₂ := h.txn_undrawn
  have h₃ := h.event_unspent
  have h₄ := h.event_undrawn
  unfold usedBy
  rw [hd]
  simp only [List.mem_cons, List.mem_append, not_or] at *
  exact ⟨⟨h₂, h₁⟩, ⟨h₄.1, h₄.2, h₃⟩, rfl⟩

theorem moved_of_settle {id : Uuid} {r : String} {L L' : Session backend} {p : Payment}
    {txn : LedgerTransaction} {event : Outbox}
    (h : ResolveReturns F id (settled r) (settleOf · r) L p txn event L') :
    Moved (usedBy F L) (F.working L) p (settled r p) [event.id, txn.id] (F.working L') ∧
      usedBy F L' = [event.id, txn.id] ++ usedBy F L := by
  obtain ⟨ht, he, hu⟩ := used_of_transfer h.transfer
  refine ⟨.settled r txn event _ ht he ?_, hu⟩
  have heffect := h.transfer.transferred (Frame.flushes_of_pending h.pending)
  rw [Frame.working_stage] at heffect
  exact heffect

theorem moved_of_reverse {id : Uuid} {L L' : Session backend} {p : Payment}
    {txn : LedgerTransaction} {event : Outbox}
    (h : ResolveReturns F id reversed reverseOf L p txn event L') :
    Moved (usedBy F L) (F.working L) p (reversed p) [event.id, txn.id] (F.working L') ∧
      usedBy F L' = [event.id, txn.id] ++ usedBy F L := by
  obtain ⟨ht, he, hu⟩ := used_of_transfer h.transfer
  refine ⟨.reversed txn event _ ht he ?_, hu⟩
  have heffect := h.transfer.transferred (Frame.flushes_of_pending h.pending)
  rw [Frame.working_stage] at heffect
  exact heffect

end Moves

section Lookup

/-- The rows locked for a query: current matches among the rows found. -/
structure Matched (F : Frame backend) (matching : Payment → Bool) (ids : List Uuid)
    (L : Session backend) (ps : List Payment) (L' : Session backend) : Prop where
  flushed : L'.flushed = L.flushed
  pending : L'.pending = L.pending
  drawn : L'.drawn = L.drawn
  snapshots : L.snapshots <:+ L'.snapshots
  order : (ps.map Payment.id).Sublist ids
  current : ∀ p ∈ ps, matching p = true ∧ (view F.hi L.flushed).payments.find? p.id = some p
  complete : ∀ i ∈ ids,
    (∃ s, F.Reads L s ∧ (view s L.flushed).payments.find? i = none) ∨
      ∃ p, (view F.hi L.flushed).payments.find? i = some p ∧ (matching p = true → p ∈ ps)

theorem lockMatching_ensures (matching : Payment → Bool) (ids : List Uuid) (L : Session backend) :
    (lockMatching matching ids).Ensures F L (Stop.Ends (fun _ _ => False)
      (Matched F matching ids L)) := by
  induction ids generalizing L with
  | nil =>
    refine Prog.Ensures.pure ⟨rfl, rfl, rfl, List.suffix_refl _, List.Sublist.refl _, ?_, ?_⟩ <;> simp
  | cons id ids ih =>
    unfold lockMatching
    refine ensures_lockPayment ?_ ?_
    · intro s hs hnone
      refine Prog.Ensures.bind (ih (L.see s)) (fun _ _ h => h.elim) ?_
      intro ps L' h
      refine Prog.Ensures.pure ⟨h.flushed, h.pending, h.drawn,
        (List.suffix_cons s _).trans h.snapshots, h.order.cons _, h.current, ?_⟩
      · intro i hi
        rcases List.mem_cons.mp hi with rfl | hi
        · exact Or.inl ⟨s, hs, hnone⟩
        · rcases h.complete i hi with ⟨t, ht, hn⟩ | hsome
          · exact Or.inl ⟨t, ⟨ht.1, fun u hu => ht.2 u (List.mem_cons_of_mem _ hu)⟩, hn⟩
          · exact Or.inr hsome
    · intro p hp
      refine Prog.Ensures.bind (ih (L.hold (.payment id))) (fun _ _ h => h.elim) ?_
      intro ps L' h
      have hid : p.id = id := Table.key_of_find? hp
      refine Prog.Ensures.pure ⟨h.flushed, h.pending, h.drawn, h.snapshots, ?_, ?_, ?_⟩
      · split
        · rw [List.map_cons, hid]
          exact h.order.cons_cons _
        · exact h.order.cons _
      · split
        · rename_i hm
          intro q hq
          rcases List.mem_cons.mp hq with rfl | hq
          · exact ⟨hm, by rw [hid]; exact hp⟩
          · exact h.current q hq
        · exact h.current
      · intro i hi
        rcases List.mem_cons.mp hi with rfl | hi
        · refine Or.inr ⟨p, hp, fun hm => ?_⟩
          rw [if_pos hm]
          exact List.mem_cons_self ..
        · rcases h.complete i hi with hnone | ⟨q, hq, hmem⟩
          · exact Or.inl hnone
          · refine Or.inr ⟨q, hq, fun hm => ?_⟩
            split
            · exact List.mem_cons_of_mem _ (hmem hm)
            · exact hmem hm

/-- The outcome of a query with `FOR UPDATE`, whose statement read the store `s`. -/
structure Selected (F : Frame backend) (matching : Payment → Bool) (L : Session backend)
    (s : Database) (ps : List Payment) (L' : Session backend) : Prop where
  reads : F.Reads L s
  seen : (s :: L.snapshots) <:+ L'.snapshots
  flushed : L'.flushed = L.flushed
  pending : L'.pending = L.pending
  drawn : L'.drawn = L.drawn
  nodup : (ps.map Payment.id).Nodup
  found : ∀ p ∈ ps, ∃ p₀ ∈ (view s L.flushed).payments.rows, matching p₀ = true ∧ p₀.id = p.id
  current : ∀ p ∈ ps, matching p = true ∧ (view F.hi L.flushed).payments.find? p.id = some p
  complete : ∀ p₀ ∈ (view s L.flushed).payments.rows, matching p₀ = true →
    (∃ t, F.Sees t ∧ F.older s t ∧ (view t L.flushed).payments.find? p₀.id = none) ∨
      ∃ p, (view F.hi L.flushed).payments.find? p₀.id = some p ∧ (matching p = true → p ∈ ps)

theorem selectForUpdate_ensures (matching : Payment → Bool) (L : Session backend) :
    (selectForUpdate matching).Ensures F L (Stop.Ends (fun _ _ => False)
      (fun ps L' => ∃ s, Selected F matching L s ps L')) := by
  unfold selectForUpdate
  refine Prog.Ensures.select ?_
  intro s hs
  refine Prog.Ensures.askFor ?_
  rintro ⟨order, hperm⟩
  refine (lockMatching_ensures matching order (L.see s)).ends (fun _ _ h => h.elim) ?_
  intro ps L' h
  have hmem : ∀ i, i ∈ order ↔
      ∃ p₀ ∈ (view s L.flushed).payments.rows, matching p₀ = true ∧ p₀.id = i := by
    intro i
    rw [hperm.mem_iff]
    simp [and_assoc]
  refine ⟨s, hs, h.snapshots, h.flushed, h.pending, h.drawn, ?_, ?_,
    h.current, ?_⟩
  · refine h.order.nodup (hperm.nodup_iff.mpr ?_)
    exact (view s L.flushed).payments.nodup.sublist (List.filter_sublist.map _)
  · intro p hp
    exact (hmem p.id).mp (h.order.subset (List.mem_map_of_mem hp))
  · intro p₀ hp₀ hm
    rcases h.complete p₀.id ((hmem _).mpr ⟨p₀, hp₀, hm, rfl⟩) with ⟨t, ht, hn⟩ | hsome
    · exact Or.inl ⟨t, ht.1, ht.2 s (List.mem_cons_self ..), hn⟩
    · exact Or.inr hsome

theorem Selected.working {matching : Payment → Bool} {L L' : Session backend} {s : Database}
    {ps : List Payment} (h : Selected F matching L s ps L') (hp : L.pending = []) :
    F.working L' = F.working L := by
  rw [Frame.working_of_pending L' (h.pending.trans hp), Frame.working_of_pending L hp, h.flushed]

theorem Selected.used {matching : Payment → Bool} {L L' : Session backend} {s : Database}
    {ps : List Payment} (h : Selected F matching L s ps L') : usedBy F L' = usedBy F L := by
  rw [usedBy, h.drawn]
  rfl

theorem Selected.keeps {matching : Payment → Bool} {L L' : Session backend} {s : Database}
    {ps : List Payment} (h : Selected F matching L s ps L') : Keeps F L L' := by
  constructor
  · rw [opened, opened, h.flushed, h.pending]
  · intro hs
    have hw : F.working L' = F.working L := by
      rw [Frame.working, Frame.working, h.flushed, h.pending]
    refine ⟨by rw [hw]; exact hs.known, ?_⟩
    rw [hw, h.flushed, h.pending]
    exact hs.nets

end Lookup

section Commit

theorem working_fresh : F.working (.fresh backend) = F.hi := rfl

theorem sealed_fresh (h : EntriesKnown F.hi) : Sealed F (.fresh backend) :=
  ⟨h, fun e he => by simp [Session.fresh] at he⟩

/-- The deferred trigger does not raise on a journal whose entries are all known. -/
def Untriggered (F : Frame backend) (e : Exn) : Prop :=
  EntriesKnown F.hi → ∀ i n, e ≠ .ledgerUnbalanced i n

theorem untriggered_of_refused {e : Exn} (h : Refused e) : Untriggered F e := by
  rintro - i n rfl
  simp [Refused] at h

theorem validateBalanced_error {ps : List Posting} {e : Exn} (h : validateBalanced ps = .error e) :
    (∃ n, e = .ledgerImbalance n) ∨ ∃ m, e = .valueError m := by
  have hnet : ∀ (ps : List Posting) (n : ℤ) (e : Exn), netAmount ps n = .error e →
      ∃ m, e = .valueError m := by
    intro ps
    induction ps with
    | nil => simp [netAmount]
    | cons p ps ih =>
      intro n e h
      simp only [netAmount] at h
      split at h
      · cases h
        exact ⟨_, rfl⟩
      · split at h <;> exact ih _ _ h
  unfold validateBalanced at h
  split at h
  · cases h
    exact Or.inl ⟨0, rfl⟩
  · split at h
    · rename_i he
      cases h
      exact Or.inr (hnet _ _ _ he)
    · split at h
      · cases h
        exact Or.inl ⟨_, rfl⟩
      · contradiction

theorem untriggered_of_post {ps : List Posting} {L : Session backend} {e : Exn}
    (h : PostRaises F ps L e) : Untriggered F e := by
  rcases h with h | h | h
  · rintro - i n rfl
    rcases validateBalanced_error h with ⟨m, hm⟩ | ⟨m, hm⟩ <;> contradiction
  · exact untriggered_of_refused h
  · rintro - i n rfl
    obtain ⟨_, _, _, _, _, _, he⟩ := h
    contradiction

/-- Committing what a session has done since the start of its transaction. -/
theorem ensures_commit {L : Session backend} {f : Unit → Program Reply}
    {E : Exn → Prop} {Q : Program Reply → Session backend → Prop}
    (hk : Keeps F (.fresh backend) L) (hok : Q (f ()) L.flushAll)
    (hfail : ∀ e, Refused e → E e)
    (hdeferred : ∀ e, Untriggered F e → (∃ i n, e = .ledgerUnbalanced i n) → E e) :
    (Prog.commitAll >>= f).Ensures F L (Stop.Commits E Q) := by
  refine Prog.Ensures.commitAll ?_ fun e _ he => hfail e (refused_of_flushFails he)
  refine fun _ => ⟨fun e he => ?_, fun _ => hok⟩
  refine hdeferred e ?_ ?_
  · intro hknown
    have hnone := (hk.sealed (sealed_fresh hknown)).deferred
    rw [hnone] at he
    contradiction
  · exact assertLedgerBalanced_error he

/-- A commit of a replay executes nothing and cannot fail. -/
theorem ensures_commit_nothing {L : Session backend} {f : Unit → Program Reply}
    {R : Stop backend Reply → Prop} (hfl : L.flushed = []) (hp : L.pending = [])
    (hok : R (.committed (f ()) L)) : (Prog.commitAll >>= f).Ensures F L R := by
  refine Prog.Ensures.commitAll ?_ ?_
  · intro _
    rw [flushAll_nil L hp, hfl, hp]
    exact ⟨fun e he => by contradiction, fun _ => hok⟩
  · intro e L' he
    rw [hp] at he
    exact he.elim

end Commit

section Failures

/-- The error is a shortage of funds only if the suspense account cannot cover the
payment `id`. -/
def Unfunded (s : Database) (id : Uuid) (e : Exn) : Prop :=
  ∀ a b n, e = .insufficientFunds a b n →
    ∃ p, s.payments.find? id = some p ∧ balanceOf s suspenseAccountId < p.amount

theorem unfunded_of_refused {s : Database} {id : Uuid} {e : Exn} (h : Refused e) :
    Unfunded s id e := by
  rintro a b n rfl
  simp [Refused] at h

theorem unfunded_of_post {s : Database} {L : Session backend} {p : Payment} {id x : Uuid} {e : Exn}
    (hp : s.payments.find? id = some p) (hs : balanceOf (F.working L) = balanceOf s)
    (h : PostRaises F [⟨suspenseAccountId, .debit, p.amount⟩, ⟨x, .credit, p.amount⟩] L e) :
    Unfunded s id e := by
  rintro a b n rfl
  refine ⟨p, hp, ?_⟩
  rcases h with h | h | h
  · rcases validateBalanced_error h with ⟨m, hm⟩ | ⟨m, hm⟩ <;> contradiction
  · simp [Refused] at h
  · obtain ⟨before, q, after, hsplit, hd, hlt, -⟩ := h
    rw [hs] at hlt
    rcases before with _ | ⟨p₁, _ | ⟨p₂, before⟩⟩
    · cases hsplit
      simpa [moves, DoubleEntry.net_nil] using hlt
    · cases hsplit
      contradiction
    · simp at hsplit

/-- How settling or reversing a payment can raise. -/
def ResolveFails (F : Frame backend) (s : Database) (id : Uuid) (e : Exn) : Prop :=
  Untriggered F e ∧ Unfunded s id e

theorem resolveFails_of_settle {L : Session backend} {id : Uuid} {r : String} {e : Exn}
    (h : ResolveRaises F id (settled r) (settleOf · r) L e) :
    ResolveFails F (F.working L) id e := by
  rcases h with ⟨rfl, _⟩ | h | ⟨p, hfound, h⟩
  · exact ⟨fun _ _ _ => by simp, fun _ _ _ he => by simp at he⟩
  · exact ⟨untriggered_of_refused h, unfunded_of_refused h⟩
  · refine ⟨untriggered_of_post h, unfunded_of_post hfound ?_ h⟩
    rw [Frame.working_stage]
    rfl

theorem resolveFails_of_reverse {L : Session backend} {id : Uuid} {e : Exn}
    (h : ResolveRaises F id reversed reverseOf L e) : ResolveFails F (F.working L) id e := by
  rcases h with ⟨rfl, _⟩ | h | ⟨p, hfound, h⟩
  · exact ⟨fun _ _ _ => by simp, fun _ _ _ he => by simp at he⟩
  · exact ⟨untriggered_of_refused h, unfunded_of_refused h⟩
  · refine ⟨untriggered_of_post h, unfunded_of_post hfound ?_ h⟩
    rw [Frame.working_stage]
    rfl

end Failures

end ApexPayments.Service
