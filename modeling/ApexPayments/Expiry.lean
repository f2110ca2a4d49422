import ApexPayments.Batches

/-!
Expiry of stale holds. The loop reverses one payment after the other inside a single
transaction, so its effect is that of a batch of reversals in the order in which the
query returned the payments.
-/
namespace ApexPayments.Service

open Domain Store Ledger Payments RowLocking DoubleEntry

section Expiry

/-- What `expire_stale_holds` does once it has read the clock. -/
def expireBefore (cutoff : Time) : Program ℕ := do
  let stale ← selectForUpdate fun p => p.status = .authorized ∧ p.createdAt < cutoff
  reverseAll stale 0

theorem expireStaleHolds_eq (timeoutMinutes : ℤ) : expireStaleHolds timeoutMinutes =
    (do
      let t ← now
      expireBefore (t - timeoutMinutes * minute)) := rfl

/-- The authorized payments created before the cutoff. -/
def staleHolds (cutoff : Time) (s : Database) : List Payment :=
  s.payments.rows.filter fun p => p.status = .authorized ∧ p.createdAt < cutoff

theorem mem_staleHolds {cutoff : Time} {s : Database} {p : Payment} :
    p ∈ staleHolds cutoff s ↔
      p ∈ s.payments.rows ∧ p.status = .authorized ∧ p.createdAt < cutoff := by
  simp [staleHolds]

theorem nodup_staleHolds (cutoff : Time) (s : Database) :
    ((staleHolds cutoff s).map Payment.id).Nodup :=
  s.payments.nodup.sublist (List.filter_sublist.map _)

/-- The payments of a list, each to be reversed. -/
def reversals (ps : List Payment) : List Order := ps.map (·, .reverse)

theorem reversals_ids (ps : List Payment) :
    (reversals ps).map (·.1.id) = ps.map Payment.id := by
  simp [reversals]

theorem reversals_amounts (ps : List Payment) :
    (reversals ps).map (·.1.amount) = ps.map Payment.amount := by
  simp [reversals]

section Loop

variable {s s' : Database} {spent spent' : List Uuid} {cutoff : Time}

/-- What the loop has done when it returns. -/
structure Unwound (F : Frame backend) (ps : List Payment) (count : ℕ) (L : Session backend)
    (n : ℕ) (L' : Session backend) : Prop where
  count : n = count + ps.length
  effect : BatchEffect (reversals ps) (F.working L) (F.working L')
  pending : L'.pending = []
  consistent : Consistent (F.working L') (L'.drawn ++ F.spent)
  keeps : Keeps F L L'
  passed : ∀ p ∈ ps.head?, Passes (F.working L) .reverse p
  idle : ps = [] → L' = L

theorem reverseAll_alone (ps : List Payment) (count : ℕ) (L : Session backend)
    (hp : L.pending = []) (hs : Consistent ((Frame.alone s spent).working L) (L.drawn ++ spent))
    (hfound : ∀ p ∈ ps, ((Frame.alone s spent).working L).payments.find? p.id = some p)
    (hnodup : (ps.map Payment.id).Nodup) :
    (reverseAll ps count).Ensures (.alone s spent) L (Stop.Ends
      (fun _ _ => ps ≠ [] ∧ ¬ Affordable (reversals ps) ((Frame.alone s spent).working L))
      (Unwound (.alone s spent) ps count L)) := by
  induction ps generalizing L count with
  | nil =>
    refine Prog.Ensures.pure ⟨rfl, BatchEffect.nil _, hp, hs, Keeps.refl L, by simp, fun _ => rfl⟩
  | cons p ps ih =>
    obtain ⟨hnew, hrest⟩ := List.nodup_cons.mp hnodup
    have hpayable : Affordable (reversals (p :: ps)) ((Frame.alone s spent).working L) →
        Payable (reversals (p :: ps)) ((Frame.alone s spent).working L) := by
      refine fun h => ⟨h, ?_, by rwa [reversals_ids]⟩
      intro r hr
      obtain ⟨q, hq, rfl⟩ := List.mem_map.mp hr
      exact hfound q hq
    refine Prog.Ensures.bind (resolve_stops .reverse p.id L hp) ?_ ?_
    · intro e L' hstops
      refine ⟨by simp, fun haffordable => ?_⟩
      exact not_passes_of_stops hp hs (hfound p (List.mem_cons_self ..)) hstops
        (hpayable haffordable).head
    · rintro _ L₁ ⟨p₀, txn, event, rfl, hreturns⟩
      have hfirst := hfound p (List.mem_cons_self ..)
      obtain rfl := Option.some.inj (hreturns.found.symm.trans hfirst)
      have htransferred := hreturns.transfer.transferred (Frame.flushes_of_pending hreturns.pending)
      rw [working_resolve] at htransferred
      have hsingle := BatchEffect.single (r := (p₀, .reverse)) hs.known htransferred
      have hs₁ := (hs.put_payment (Resolution.reverse.update p₀)).transferred htransferred
      rw [show event.id :: txn.id :: (L.drawn ++ spent) = L₁.drawn ++ spent by
        rw [hreturns.transfer.drawn]
        rfl] at hs₁
      have hfound₁ : ∀ q ∈ ps, ((Frame.alone s spent).working L₁).payments.find? q.id = some q := by
        intro q hq
        rw [hsingle.others q.id ?_]
        · exact hfound q (List.mem_cons_of_mem _ hq)
        · intro hmem
          refine hnew (List.mem_map.mpr ⟨q, hq, ?_⟩)
          simpa using hmem
      refine (ih (count + 1) L₁ hreturns.pending hs₁ hfound₁ hrest).ends ?_ ?_
      · rintro e L' ⟨-, hnot⟩
        refine ⟨by simp, fun haffordable => ?_⟩
        exact hnot ((hpayable haffordable).tail hsingle).toAffordable
      · intro n L' h
        refine ⟨?_, ?_, h.pending, h.consistent, (keeps_resolve hreturns).trans h.keeps, ?_, by simp⟩
        · rw [h.count, List.length_cons]
          omega
        · have hids : p₀.id ∉ (reversals ps).map (·.1.id) := by rwa [reversals_ids]
          exact BatchEffect.cons hids hs.known htransferred h.effect
        · intro q hq
          obtain rfl := Option.some.inj hq
          exact passes_of_returns hp hreturns

/-- With nothing beside it the query returns the stale holds in some order. -/
theorem selected_perm {L L' : Session backend} {t : Database} {ps : List Payment}
    (hfresh : L.flushed = []) (h : Selected (.alone s spent)
      (fun p => p.status = .authorized ∧ p.createdAt < cutoff) L t ps L') :
    ps.Perm (staleHolds cutoff s) := by
  have ht : t = s := (Frame.alone_sees (B := backend) s t spent).mp h.reads.1
  subst ht
  have hcomplete := h.complete
  have hcurrent := h.current
  rw [hfresh] at hcomplete hcurrent
  refine (List.perm_ext_iff_of_nodup (List.Nodup.of_map _ h.nodup)
    (List.Nodup.of_map _ (nodup_staleHolds cutoff t))).mpr ?_
  intro p
  rw [mem_staleHolds]
  constructor
  · intro hp
    obtain ⟨hm, hfind⟩ := hcurrent p hp
    exact ⟨Table.mem_of_find? hfind, by simpa using hm⟩
  · rintro ⟨hp, hm⟩
    have hfind := Table.find?_of_mem hp
    rcases hcomplete p hp (by simpa using hm) with ⟨u, hu, -, hnone⟩ | ⟨q, hq, hmem⟩
    · rw [(Frame.alone_sees (B := backend) t u spent).mp hu] at hnone
      have hcontra := hfind.symm.trans hnone
      contradiction
    · obtain rfl := Option.some.inj (hfind.symm.trans hq)
      exact hmem (by simpa using hm)

/-- What the result of an expiry says about the stores around it. -/
def ExpiryEnds (cutoff : Time) (s : Database) (s' : Database) (spent' : List Uuid) :
    Except Exn ℕ → Prop
  | .ok n => ∃ ps : List Payment, ps.Perm (staleHolds cutoff s) ∧ n = ps.length ∧
      BatchEffect (reversals ps) s s' ∧ Consistent s' spent' ∧
      (∀ p ∈ ps.head?, Passes s .reverse p) ∧ (ps = [] → s' = s)
  | .error _ => s' = s ∧ staleHolds cutoff s ≠ [] ∧
      ¬ Affordable (reversals (staleHolds cutoff s)) s

theorem inside_reverseAll (ps : List Payment) (count : ℕ) : (reverseAll ps count).Inside := by
  induction ps generalizing count with
  | nil => trivial
  | cons p ps ih => exact Prog.Inside.bind (Resolution.reverse.inside_program p.id) fun _ => ih _

theorem inside_lockMatching (matching : Payment → Bool) (ids : List Uuid) :
    (lockMatching matching ids).Inside := by
  induction ids with
  | nil => trivial
  | cons id ids ih =>
    refine Prog.Inside.bind (inside_lockPayment id) fun row => ?_
    refine Prog.Inside.bind ih fun rest => ?_
    cases row <;> trivial

theorem inside_expireBefore (cutoff : Time) : (expireBefore cutoff).Inside := by
  have hselect : (selectForUpdate fun p => p.status = .authorized ∧ p.createdAt < cutoff).Inside :=
    Prog.Inside.bind (Prog.inside_select _) fun _ =>
      Prog.Inside.bind (Prog.inside_askFor _) fun _ => inside_lockMatching _ _
  exact Prog.Inside.bind hselect fun ps => inside_reverseAll ps 0

theorem expireBefore_alone (hs : Consistent s spent) :
    (expireBefore cutoff).Ensures (.alone s spent) (.fresh backend) (Stop.Ends
      (fun _ _ => staleHolds cutoff s ≠ [] ∧ ¬ Affordable (reversals (staleHolds cutoff s)) s)
      (fun n L' => ∃ ps L₁, ps.Perm (staleHolds cutoff s) ∧ L₁.flushed = [] ∧
        Keeps (.alone s spent) (.fresh backend) L₁ ∧ (Frame.alone s spent).working L₁ = s ∧
        Unwound (.alone s spent) ps 0 L₁ n L')) := by
  refine Prog.Ensures.bind (selectForUpdate_ensures _ (.fresh backend)) (fun _ _ h => h.elim) ?_
  rintro ps L₁ ⟨t, hselected⟩
  have hperm := selected_perm rfl hselected
  have hworking : (Frame.alone s spent).working L₁ = s := hselected.working rfl
  have hs₁ : Consistent ((Frame.alone s spent).working L₁) (L₁.drawn ++ spent) := by
    rw [hworking, hselected.drawn]
    exact hs
  have hfound : ∀ p ∈ ps, ((Frame.alone s spent).working L₁).payments.find? p.id = some p := by
    intro p hp
    rw [hworking]
    exact Table.find?_of_mem (mem_staleHolds.mp (hperm.mem_iff.mp hp)).1
  refine (reverseAll_alone ps 0 L₁ hselected.pending hs₁ hfound hselected.nodup).ends ?_ ?_
  · rw [hworking]
    rintro e L' ⟨hne, hnot⟩
    refine ⟨?_, fun haffordable => hnot (haffordable.perm (hperm.symm.map _))⟩
    intro hnil
    rw [hnil] at hperm
    exact hne hperm.eq_nil
  · exact fun n L' h => ⟨ps, L₁, hperm, hselected.flushed, hselected.keeps, hworking, h⟩

/-- An expiry as a transaction of its own. -/
theorem expire_transacts {r : Except Exn ℕ} (hs : Consistent s spent)
    (h : Transacts (B := backend) (expireBefore cutoff) s spent r s' spent') :
    ExpiryEnds cutoff s s' spent' r := by
  have hends := Transacts.of_ensures (@expireBefore_alone s spent cutoff hs) ?_ ?_ h
  · cases r with
    | error e => exact ⟨h.unchanged.1, hends⟩
    | ok n =>
      obtain ⟨L, ⟨ps, L₁, hperm, hflushed, -, hworking, hunwound⟩, rfl, rfl⟩ := hends
      have hafter := Frame.working_of_pending (F := .alone s spent) L hunwound.pending
      have heffect := hunwound.effect
      have hconsistent := hunwound.consistent
      have hpassed := hunwound.passed
      rw [hworking] at heffect hpassed
      rw [hafter] at heffect hconsistent
      refine ⟨ps, hperm, ?_, heffect, hconsistent, hpassed, ?_⟩
      · rw [hunwound.count, Nat.zero_add]
      · intro hnil
        rw [hunwound.idle hnil, hflushed]
        rfl
  · rintro n L ⟨ps, L₁, -, -, -, -, hunwound⟩
    exact hunwound.pending
  · rintro n L ⟨ps, L₁, -, -, hkeeps, -, hunwound⟩
    have hd := ((hkeeps.trans hunwound.keeps).sealed (sealed_fresh hs.known)).deferred
    rw [Frame.working_of_pending L hunwound.pending, hunwound.pending, List.append_nil] at hd
    exact hd

end Loop

section Outcome

variable {s s' : Database} {spent : List Uuid} {cutoff : Time}

/-- What the reversals add to an account. -/
theorem net_reversals (ps : List Payment) (a : Uuid) :
    net (moves (postingsAll (reversals ps))) a =
      ((ps.filter (·.payerAccount = a)).map Payment.amount).sum -
        if a = suspenseAccountId then (ps.map Payment.amount).sum else 0 := by
  induction ps with
  | nil =>
    change (0 : ℤ) = 0 - if a = suspenseAccountId then 0 else 0
    rw [ite_self, sub_zero]
  | cons p ps ih =>
    have hfirst := net_postingsFor (p, .reverse) a
    change _ = (if p.payerAccount = a then p.amount else 0) -
      (if suspenseAccountId = a then p.amount else 0) at hfirst
    change net (moves (postingsFor (p, .reverse) ++ postingsAll (reversals ps))) a = _
    rw [net_moves_append, hfirst, ih, List.filter_cons, List.map_cons, List.sum_cons]
    simp only [decide_eq_true_eq, eq_comm (a := suspenseAccountId)]
    by_cases hpayer : p.payerAccount = a
    · rw [if_pos hpayer, if_pos hpayer, List.map_cons, List.sum_cons]
      split_ifs <;> omega
    · rw [if_neg hpayer, if_neg hpayer]
      split_ifs <;> omega

/-- The stale holds are undone, and nothing else has changed. -/
structure HoldsExpired (cutoff : Time) (s s' : Database) : Prop where
  failed : ∀ p ∈ staleHolds cutoff s, s'.payments.find? p.id = some (reversed p)
  others : ∀ i, i ∉ (staleHolds cutoff s).map Payment.id →
    s'.payments.find? i = s.payments.find? i
  recorded : ∃ ps : List Payment, ps.Perm (staleHolds cutoff s) ∧
    journal s' = journal s ++ ps.map (fun p => ⟨.reversal, p.id,
      [⟨suspenseAccountId, .debit, p.amount⟩, ⟨p.payerAccount, .credit, p.amount⟩]⟩) ∧
    announcements s' = announcements s ++ ps.map (fun p => ⟨"payment", p.id, "payment.failed",
      eventPayload p ++ [("status", .str PaymentStatus.failed.value)], none⟩)
  balances : ∀ a, balanceOf s' a = balanceOf s a +
    (((staleHolds cutoff s).filter (·.payerAccount = a)).map Payment.amount).sum -
      if a = suspenseAccountId then ((staleHolds cutoff s).map Payment.amount).sum else 0
  untouched : ∀ a, a ≠ suspenseAccountId → (∀ p ∈ staleHolds cutoff s, p.payerAccount ≠ a) →
    s'.accountBalances.find? a = s.accountBalances.find? a
  accounts : s'.accounts = s.accounts
  refunds : s'.refunds = s.refunds
  idempotencyKeys : s'.idempotencyKeys = s.idempotencyKeys
  webhookEvents : s'.webhookEvents = s.webhookEvents

theorem holdsExpired_of_effect {ps : List Payment} (hperm : ps.Perm (staleHolds cutoff s))
    (h : BatchEffect (reversals ps) s s') : HoldsExpired cutoff s s' := by
  refine ⟨?_, ?_, ⟨ps, hperm, ?_, ?_⟩, ?_, ?_, h.accounts, h.refunds, h.idempotencyKeys,
    h.webhookEvents⟩
  · intro p hp
    exact h.resolved (p, .reverse) (List.mem_map_of_mem (hperm.mem_iff.mpr hp))
  · intro i hi
    apply h.others
    rw [reversals_ids, (hperm.map _).mem_iff]
    exact hi
  · rw [h.journal, reversals, List.map_map]
    rfl
  · rw [h.announcements, reversals, List.map_map]
    rfl
  · intro a
    rw [balanceOf_afterPostings h.rows, net_reversals, (hperm.map _).sum_eq,
      ((hperm.filter _).map _).sum_eq, add_sub_assoc]
  · intro a ha hpayers
    rw [h.rows a, afterPostings, if_neg]
    intro hmem
    obtain ⟨q, hq, rfl⟩ := List.mem_map.mp hmem
    obtain ⟨r, hr, hqr⟩ := List.mem_flatMap.mp hq
    obtain ⟨p, hp, rfl⟩ := List.mem_map.mp hr
    rw [postingsFor_eq, List.mem_cons, List.mem_singleton] at hqr
    rcases hqr with rfl | rfl
    · exact ha rfl
    · exact hpayers p (hperm.mem_iff.mp hp) rfl

/-- After an expiry no hold is stale. -/
theorem staleHolds_of_expired (h : HoldsExpired cutoff s s') : staleHolds cutoff s' = [] := by
  refine List.eq_nil_iff_forall_not_mem.mpr ?_
  intro p hp
  obtain ⟨hrow, hstatus, hcreated⟩ := mem_staleHolds.mp hp
  have hfind := Table.find?_of_mem hrow
  by_cases hid : p.id ∈ (staleHolds cutoff s).map Payment.id
  · obtain ⟨q, hq, hqp⟩ := List.mem_map.mp hid
    have hfailed := h.failed q hq
    rw [hqp, hfind] at hfailed
    rw [Option.some.inj hfailed] at hstatus
    contradiction
  · rw [h.others p.id hid] at hfind
    exact hid (List.mem_map_of_mem
      (mem_staleHolds.mpr ⟨Table.mem_of_find? hfind, hstatus, hcreated⟩))

/-- The sample payment as a stale hold, with 50 in the suspense account. -/
theorem affordable_payment :
    Affordable (reversals (staleHolds 1 (paymentDatabase .authorized)))
      (paymentDatabase .authorized) := by
  have hstored := stored_of_rows (s := paymentDatabase .authorized) (by decide)
  exact ⟨by decide, by decide, by decide, hstored,
    fun a => (fits_of_touched hstored (by decide) a).1,
    fun a => (fits_of_touched hstored (by decide) a).2, by decide⟩

/-- The payer of the stale hold owns as much as the column holds. -/
def brimmingPayer : Database :=
  { paymentDatabase .authorized with
    accountBalances := ⟨[⟨suspenseAccountId, 50, 0⟩, ⟨2, 2 ^ 63 - 1, 0⟩], by decide⟩ }

theorem consistent_brimmingPayer : Consistent brimmingPayer [] where
  nonneg := by simp [brimmingPayer]
  known := kept_sample.known
  ids := kept_sample.ids
  events := (consistent_payment .authorized).events

end Outcome

end Expiry

end ApexPayments.Service
