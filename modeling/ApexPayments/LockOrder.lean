import ApexPayments.Journal
import ApexPayments.Service
import ApexPayments.RowLocking.Progress

/-!
The locking discipline of the calls. Every call but the relay's waits for the rows that it
locks, writes outbox rows only by inserting them, and announces the outcome of a payment only
while it holds the payment. The balance rows of one posting list are locked in ascending order.
-/
namespace ApexPayments.Service

open Domain Store Ledger Payments Webhooks Relay RowLocking

section Discipline

/-- The balance rows, by account. -/
def balanceRank : backend.Key → Option Uuid
  | .accountBalance a => some a
  | _ => none

/-- The types of the events that announce the outcome of a payment. -/
def AnnouncesOutcome (eventType : String) : Prop :=
  eventType = "payment.succeeded" ∨ eventType = "payment.failed"

theorem not_outcome_processing : ¬ AnnouncesOutcome "payment.processing" := by
  rintro (h | h) <;> contradiction

theorem not_outcome_completed : ¬ AnnouncesOutcome "refund.completed" := by
  rintro (h | h) <;> contradiction

/-- The policy of the calls. It is about balance rows only if `ranked` holds. If `open_` holds,
it may be assumed of a payment that is locked that its payer's row can be locked next. -/
def orderly (ranked open_ : Prop) : Policy backend where
  locks ks k := (∀ id, k ≠ .outbox id) ∧ (ranked → Climbs balanceRank ks k)
  finds ks row := open_ → ∀ p, row = .payment p → Climbs balanceRank ks (.accountBalance p.payerAccount)
  tries _ := False
  stages ks w := ∀ ev, w.row = .outbox ev → w = .insert (.outbox ev) ∧
    (AnnouncesOutcome ev.eventType → .payment ev.aggregateId ∈ ks)
  executes ks w := ranked → Climbs balanceRank ks w.key

variable {ranked open_ : Prop} {ks ks' : List backend.Key} {ws : List (Write backend)}

/-- None of the statements touches a balance row. -/
def Plain (ws : List (Write backend)) : Prop := ∀ w ∈ ws, balanceRank w.key = none

theorem climbs_none (h : ks.filterMap balanceRank = []) (k : backend.Key) : Climbs balanceRank ks k := by
  right
  intro a _ b hb
  rw [h] at hb
  contradiction

theorem subset_addHeld (ks : List backend.Key) (k : backend.Key) : ks ⊆ addHeld ks k := fun _ hk =>
  (mem_addHeld ks k _).mpr (Or.inr hk)

theorem mem_addHeld_self (ks : List backend.Key) (k : backend.Key) : k ∈ addHeld ks k :=
  (mem_addHeld ks k k).mpr (Or.inl rfl)

theorem balances_addHeld {k : backend.Key} (h : balanceRank k = none) :
    (addHeld ks k).filterMap balanceRank = ks.filterMap balanceRank := by
  unfold addHeld
  by_cases hmem : k ∈ ks
  · rw [if_pos hmem]
  · rw [if_neg hmem, List.filterMap_cons_none h]

theorem subset_holdAll (ks : List backend.Key) (ws : List (Write backend)) : ks ⊆ holdAll ks ws := by
  induction ws generalizing ks with
  | nil => exact List.Subset.refl ks
  | cons w ws ih => exact List.Subset.trans (subset_addHeld ks w.key) (ih _)

theorem balances_holdAll (h : Plain ws) :
    (holdAll ks ws).filterMap balanceRank = ks.filterMap balanceRank := by
  induction ws generalizing ks with
  | nil => rfl
  | cons w ws ih =>
    have hrest := @ih (addHeld ks w.key) fun v hv => h v (List.mem_cons_of_mem _ hv)
    exact hrest.trans (balances_addHeld (h w (List.mem_cons_self ..)))

theorem climbs_grow {k : backend.Key} (hsub : ks ⊆ ks')
    (hsame : ks'.filterMap balanceRank = ks.filterMap balanceRank) (h : Climbs balanceRank ks k) :
    Climbs balanceRank ks' k := by
  rcases h with hmem | hall
  · exact Or.inl (hsub hmem)
  · right
    rw [hsame]
    exact hall

/-- A row above the one that is locked now can be locked afterwards. -/
theorem climbs_addHeld {a b : Uuid} (hab : a < b)
    (h : Climbs balanceRank ks (.accountBalance b)) :
    Climbs balanceRank (addHeld ks (.accountBalance a)) (.accountBalance b) := by
  rcases h with hmem | hall
  · exact Or.inl (subset_addHeld _ _ hmem)
  · right
    intro b' hb' c hc
    cases hb'
    obtain ⟨k, hk, hrank⟩ := List.mem_filterMap.mp hc
    rcases (mem_addHeld ks _ k).mp hk with rfl | hk
    · cases hrank
      exact hab
    · exact hall b rfl c (List.mem_filterMap.mpr ⟨k, hk, hrank⟩)

theorem executesAll_held (h : ∀ w ∈ ws, w.key ∈ ks ∨ balanceRank w.key = none) :
    (orderly ranked open_).ExecutesAll ks ws := by
  induction ws generalizing ks with
  | nil => trivial
  | cons w ws ih =>
    refine ⟨fun _ => ?_, ih ?_⟩
    · rcases h w (List.mem_cons_self ..) with hmem | hnone
      · exact Or.inl hmem
      · exact climbs_unranked hnone
    · intro v hv
      rcases h v (List.mem_cons_of_mem _ hv) with hmem | hnone
      · exact Or.inl (subset_addHeld _ _ hmem)
      · exact Or.inr hnone

theorem executesAll_plain (h : Plain ws) : (orderly ranked open_).ExecutesAll ks ws :=
  executesAll_held fun w hw => Or.inr (h w hw)

theorem stages_plain {w : Write backend} (h : ∀ ev, w.row ≠ .outbox ev) :
    (orderly ranked open_).stages ks w := fun ev hev => absurd hev (h ev)

end Discipline

section Posting

variable {ranked open_ : Prop} {ks : List backend.Key} {ws : List (Write backend)} {β : Type}

theorem obeys_ofExcept {Q : β → List backend.Key → List (Write backend) → Prop} {P : Policy backend}
    {x : Except Exn β} (h : ∀ b, x = .ok b → Q b ks ws) :
    (ofExcept x).Obeys P Q ks ws := by
  cases x with
  | error e => trivial
  | ok b => exact h b rfl

theorem obeys_lockPayment {id : Uuid} {Q : Option Payment → List backend.Key → List (Write backend) → Prop}
    (hnone : Q none ks ws)
    (hsome : ∀ p : Payment, p.id = id →
      (open_ → Climbs balanceRank ks (.accountBalance p.payerAccount)) →
      Q (some p) (addHeld ks (.payment id)) ws) :
    (lockPayment id).Obeys (orderly ranked open_) Q ks ws := by
  unfold lockPayment
  refine Prog.Obeys.lockRow ?_ hnone ?_
  · exact ⟨by simp, fun _ => climbs_unranked rfl⟩
  · intro s row hrow hfinds
    obtain ⟨p, hp, rfl⟩ := Option.map_eq_some_iff.mp hrow
    exact hsome p (Table.key_of_find? hp) fun ho => hfinds ho p rfl

theorem obeys_lockBalances {ids : List Uuid} {b : BalancesMap}
    {Q : BalancesMap → List backend.Key → List (Write backend) → Prop} (hsorted : ids.Pairwise (· < ·))
    (hclimbs : ranked → ∀ a ∈ ids, Climbs balanceRank ks (.accountBalance a))
    (hb : ∀ a, (b a).accountId = a)
    (hQ : ∀ b ks', ks ⊆ ks' → (∀ a ∈ ids, .accountBalance a ∈ ks') → (∀ a, (b a).accountId = a) →
      Q b ks' []) :
    (lockBalances ids b).Obeys (orderly ranked open_) Q ks [] := by
  induction ids generalizing ks b with
  | nil => exact hQ b ks (List.Subset.refl ks) (by simp) hb
  | cons a ids ih =>
    obtain ⟨hlt, hsorted⟩ := List.pairwise_cons.mp hsorted
    have hrest : ∀ r : AccountBalance, r.accountId = a →
        (lockBalances ids (Function.update b a r)).Obeys (orderly ranked open_) Q
          (addHeld ks (.accountBalance a)) [] := by
      intro r hr
      refine ih hsorted ?_ ?_ ?_
      · intro hranked a' ha'
        exact climbs_addHeld (hlt a' ha') (hclimbs hranked a' (List.mem_cons_of_mem _ ha'))
      · intro a'
        by_cases haa : a' = a
        · subst haa
          rw [Function.update_self]
          exact hr
        · rw [Function.update_of_ne haa]
          exact hb a'
      · intro b' ks' hsub hall hb'
        refine hQ b' ks' (List.Subset.trans (subset_addHeld _ _) hsub) ?_ hb'
        intro a' ha'
        rcases List.mem_cons.mp ha' with rfl | ha'
        · exact hsub (mem_addHeld_self _ _)
        · exact hall a' ha'
    have hself : ranked → Climbs balanceRank ks (.accountBalance a) := fun hr =>
      hclimbs hr a (List.mem_cons_self ..)
    unfold lockBalances lockBalance
    rw [Prog.bind_assoc]
    refine Prog.Obeys.lockRow ⟨by simp, hself⟩ ?_ ?_
    · refine Prog.Obeys.stageRow (stages_plain (by simp [Write.row])) ?_
      exact Prog.Obeys.flushAll ⟨hself, trivial⟩ (hrest _ rfl)
    · intro s row hrow _
      obtain ⟨r, hr, rfl⟩ := Option.map_eq_some_iff.mp hrow
      exact hrest r (Table.key_of_find? hr)

theorem sorted_sortedAccountIds (ps : List Posting) : (sortedAccountIds ps).Pairwise (· < ·) := by
  have hle : (sortedAccountIds ps).Pairwise (· ≤ ·) := List.pairwise_insertionSort _ _
  have hnodup : (sortedAccountIds ps).Nodup :=
    (List.perm_insertionSort _ _).nodup_iff.mpr (List.nodup_dedup _)
  exact hle.imp₂ (fun _ _ hab hne => lt_of_le_of_ne hab hne) hnodup

theorem obeys_post {type : TransactionType} {referenceId : Uuid} {ps : List Posting}
    {Q : LedgerTransaction → List backend.Key → List (Write backend) → Prop} (hws : Plain ws)
    (hclimbs : ranked → ∀ a ∈ sortedAccountIds ps, Climbs balanceRank ks (.accountBalance a))
    (hQ : ∀ txn ks', ks ⊆ ks' → (∀ a ∈ sortedAccountIds ps, .accountBalance a ∈ ks') →
      Q txn ks' []) :
    (post type referenceId ps).Obeys (orderly ranked open_) Q ks ws := by
  unfold post
  refine Prog.Obeys.bind (obeys_ofExcept fun _ _ => ?_)
  refine Prog.Obeys.drawIdent fun id => ?_
  refine Prog.Obeys.stageRow (stages_plain (by simp [Write.row])) ?_
  have hplain : Plain (ws ++ [.insert (.ledgerTransaction ⟨id, type, referenceId⟩)]) := by
    intro w hw
    rcases List.mem_append.mp hw with hw | hw
    · exact hws w hw
    · rw [List.mem_singleton.mp hw]
      rfl
  refine Prog.Obeys.flushAll (executesAll_plain hplain) ?_
  refine Prog.Obeys.bind (obeys_lockBalances (sorted_sortedAccountIds ps) ?_ (fun _ => rfl) ?_)
  · intro hr a ha
    exact climbs_grow (subset_holdAll _ _) (balances_holdAll hplain) (hclimbs hr a ha)
  · intro b ks' hsub hall hb
    refine Prog.Obeys.stageRows ?_ ?_
    · intro w hw
      apply stages_plain
      intro ev hev
      rcases List.mem_append.mp hw with hw | hw
      · obtain ⟨x, -, rfl⟩ := List.mem_map.mp hw
        contradiction
      · obtain ⟨a, -, rfl⟩ := List.mem_map.mp hw
        contradiction
    · rw [List.nil_append]
      cases hfail : (applyPostings id 0 ps b).failure with
      | some e => trivial
      | none =>
        refine Prog.Obeys.flushAll (executesAll_held ?_) ?_
        · intro w hw
          rcases List.mem_append.mp hw with hw | hw
          · obtain ⟨x, -, rfl⟩ := List.mem_map.mp hw
            exact Or.inr rfl
          · -- the rows that the loop changed are held already
            obtain ⟨a, ha, rfl⟩ := List.mem_map.mp hw
            have hkey := ((applyPostings_ok hfail).2 a).1.trans (hb a)
            left
            rw [show (Write.update (B := backend) (.accountBalance
              ((applyPostings id 0 ps b).balances a))).key = .accountBalance a from congrArg _ hkey]
            exact hall a ha
        · have hgrow := subset_holdAll ks' (staged (sortedAccountIds ps) (applyPostings id 0 ps b))
          refine hQ _ _ ?_ fun a ha => hgrow (hall a ha)
          exact List.Subset.trans (subset_holdAll _ _) (List.Subset.trans hsub hgrow)

end Posting

section Services

variable {ranked open_ : Prop} {ks : List backend.Key} {ws : List (Write backend)} {β : Type}

theorem plain_append {w : Write backend} (hws : Plain ws) (hw : balanceRank w.key = none) :
    Plain (ws ++ [w]) := by
  intro v hv
  rcases List.mem_append.mp hv with hv | hv
  · exact hws v hv
  · rw [List.mem_singleton.mp hv]
    exact hw

theorem plain_nil : Plain [] := fun _ hw => absurd hw List.not_mem_nil

/-- An outcome is announced while the payment is held. -/
theorem obeys_addOutbox {aggregateType eventType : String} {aggregateId : Uuid}
    {payload : List (String × Json)} {Q : Unit → List backend.Key → List (Write backend) → Prop}
    (hws : Plain ws) (hheld : AnnouncesOutcome eventType → .payment aggregateId ∈ ks)
    (hQ : ∀ ws', Plain ws' → Q () ks ws') :
    (addOutbox aggregateType aggregateId eventType payload).Obeys (orderly ranked open_) Q ks ws := by
  unfold addOutbox
  refine Prog.Obeys.drawIdent fun id => ?_
  refine Prog.Obeys.askFor fun t => ⟨?_, hQ _ (plain_append hws rfl)⟩
  intro ev hev
  cases hev
  exact ⟨rfl, hheld⟩

theorem obeys_hold {p : Payment} {Q : Payment → List backend.Key → List (Write backend) → Prop}
    (hws : Plain ws) (hnone : ranked → ks.filterMap balanceRank = [])
    (hQ : ∀ p ks', Q p ks' []) : (hold p).Obeys (orderly ranked open_) Q ks ws := by
  unfold hold
  have hplain := plain_append hws (w := .insert (.payment { p with status := .processing })) rfl
  refine Prog.Obeys.stageRow (stages_plain (by simp [Write.row])) ?_
  refine Prog.Obeys.flushAll (executesAll_plain hplain) ?_
  refine Prog.Obeys.bind (obeys_post plain_nil ?_ ?_)
  · intro hr a _
    apply climbs_none
    rw [balances_holdAll hplain]
    exact hnone hr
  · intro txn ks' _ _
    refine Prog.Obeys.bind (obeys_addOutbox plain_nil ?_ ?_)
    · exact fun h => absurd h not_outcome_processing
    · intro ws' hws'
      exact Prog.Obeys.flushAll (executesAll_plain hws') (hQ _ _)

/-- Settling or reversing: with the payment held, its row is changed, the money is moved
and the outcome is announced. -/
theorem obeys_outcome {id : Uuid} {p : Payment} {type : TransactionType} {ps : List Posting}
    {eventType : String} {payload : List (String × Json)}
    {Q : Payment → List backend.Key → List (Write backend) → Prop} (hws : Plain ws)
    (hheld : .payment id ∈ ks) (hid : p.id = id)
    (hclimbs : ranked → ∀ a ∈ sortedAccountIds ps, Climbs balanceRank ks (.accountBalance a))
    (hQ : ∀ p ks', (∀ a ∈ sortedAccountIds ps, .accountBalance a ∈ ks') → Q p ks' []) :
    (do
      modify (.payment p)
      let _ ← post type p.id ps
      addOutbox "payment" p.id eventType payload
      flush
      pure p : Program Payment).Obeys (orderly ranked open_) Q ks ws := by
  have hplain := plain_append hws (w := .update (.payment p)) rfl
  refine Prog.Obeys.stageRow (stages_plain (by simp [Write.row])) ?_
  refine Prog.Obeys.bind (obeys_post hplain hclimbs ?_)
  intro txn ks' hsub hall
  refine Prog.Obeys.bind (obeys_addOutbox plain_nil ?_ ?_)
  · intro _
    rw [hid]
    exact hsub hheld
  · intro ws' hws'
    refine Prog.Obeys.flushAll (executesAll_plain hws') (hQ _ _ ?_)
    exact fun a ha => subset_holdAll _ _ (hall a ha)

theorem obeys_settle {id : Uuid} {reference : String}
    {Q : Payment → List backend.Key → List (Write backend) → Prop} (hws : Plain ws)
    (hnone : ranked → ks.filterMap balanceRank = []) (hQ : ∀ p ks', Q p ks' []) :
    (settle id reference).Obeys (orderly ranked open_) Q ks ws := by
  unfold settle
  refine Prog.Obeys.bind (obeys_lockPayment trivial ?_)
  intro p hid _
  refine obeys_outcome hws (mem_addHeld_self _ _) hid ?_ fun p ks' _ => hQ p ks'
  intro hr a _
  apply climbs_none
  rw [balances_addHeld rfl]
  exact hnone hr

theorem obeys_reverse {id : Uuid} {Q : Payment → List backend.Key → List (Write backend) → Prop}
    (hws : Plain ws) (hready : ranked → ks.filterMap balanceRank = [] ∨
      open_ ∧ .accountBalance suspenseAccountId ∈ ks)
    (hQ : ∀ p ks', .accountBalance suspenseAccountId ∈ ks' → Q p ks' []) :
    (reverse id).Obeys (orderly ranked open_) Q ks ws := by
  unfold reverse
  refine Prog.Obeys.bind (obeys_lockPayment trivial ?_)
  intro p hid hopen
  refine obeys_outcome hws (mem_addHeld_self _ _) hid ?_ ?_
  · intro hr a ha
    have hgrow : Climbs balanceRank ks (.accountBalance a) →
        Climbs balanceRank (addHeld ks (.payment id)) (.accountBalance a) :=
      climbs_grow (subset_addHeld _ _) (balances_addHeld rfl)
    apply hgrow
    rcases hready hr with hnone | ⟨ho, hsuspense⟩
    · exact climbs_none hnone _
    · have ha : a = suspenseAccountId ∨ a = p.payerAccount := by
        simpa [mem_sortedAccountIds] using ha
      rcases ha with rfl | rfl
      · exact Or.inl hsuspense
      · exact hopen ho
  · intro p' ks' hall
    exact hQ p' ks' (hall _ (by simp [mem_sortedAccountIds]))

theorem obeys_claimOrReplay {ext : Externals} {m k : String} {payload : Payload}
    {Q : Option (ℤ × Option ResponseBody) → List backend.Key → List (Write backend) → Prop}
    (hws : Plain ws) (hQ : ∀ x ks' ws', ks'.filterMap balanceRank = ks.filterMap balanceRank →
      Plain ws' → Q x ks' ws') :
    (claimOrReplay ext m k payload).Obeys (orderly ranked open_) Q ks ws := by
  unfold claimOrReplay
  refine Prog.Obeys.select fun s => ?_
  cases s.idempotencyKeys.find? (m, k) with
  | none =>
    refine Prog.Obeys.stageRow (stages_plain (by simp [Write.row])) ?_
    have hplain := plain_append hws
      (w := .insert (.idempotencyRecord ⟨m, k, ext.hash payload, .inProgress, none, none, none⟩)) rfl
    exact Prog.Obeys.flushAll (executesAll_plain hplain) (hQ _ _ _ (balances_holdAll hplain) plain_nil)
  | some record =>
    by_cases hhash : record.requestHash ≠ ext.hash payload
    · simp only [if_pos hhash]
      trivial
    · simp only [if_neg hhash]
      cases record.status with
      | inProgress => trivial
      | completed => exact hQ _ _ _ rfl hws

theorem obeys_complete {m k : String} {id : Uuid} {code : ℤ} {body : ResponseBody}
    {Q : Unit → List backend.Key → List (Write backend) → Prop} (hws : Plain ws)
    (hQ : ∀ ks' ws', Plain ws' → Q () ks' ws') :
    (complete m k id code body).Obeys (orderly ranked open_) Q ks ws := by
  unfold complete
  refine Prog.Obeys.select fun s => ?_
  cases s.idempotencyKeys.find? (m, k) with
  | none => exact hQ _ _ hws
  | some record =>
    dsimp only
    unfold lockRecord
    rw [Prog.bind_assoc]
    refine Prog.Obeys.lockRow ⟨by simp, fun _ => climbs_unranked rfl⟩ trivial ?_
    intro t row hrow _
    obtain ⟨r, -, rfl⟩ := Option.map_eq_some_iff.mp hrow
    refine Prog.Obeys.stageRow (stages_plain (by simp [Write.row])) ?_
    exact ⟨executesAll_plain (plain_append hws rfl), hQ _ _ plain_nil⟩

theorem obeys_applyResult {id : Uuid} {result : AuthorizationResult}
    {Q : Payment → List backend.Key → List (Write backend) → Prop} (hws : Plain ws)
    (hnone : ks.filterMap balanceRank = []) (hQ : ∀ p ks' ws', Plain ws' → Q p ks' ws') :
    (applyResult id result).Obeys (orderly ranked open_) Q ks ws := by
  unfold applyResult
  cases result.outcome with
  | captured => exact obeys_settle hws (fun _ => hnone) fun p ks' => hQ p ks' [] plain_nil
  | declined =>
    exact obeys_reverse hws (fun _ => Or.inl hnone) fun p ks' _ => hQ p ks' [] plain_nil
  | pending =>
    refine Prog.Obeys.bind (obeys_lockPayment trivial ?_)
    intro p _ _
    exact ⟨stages_plain (by simp [Write.row]), hQ _ _ _ (plain_append hws rfl)⟩

theorem obeys_selectForUpdate {matching : Payment → Bool}
    {Q : List Payment → List backend.Key → List (Write backend) → Prop}
    (hQ : ∀ ps ks', ks'.filterMap balanceRank = ks.filterMap balanceRank → Q ps ks' ws) :
    (selectForUpdate matching).Obeys (orderly ranked open_) Q ks ws := by
  have hlock : ∀ ids ks (Q : List Payment → List backend.Key → List (Write backend) → Prop),
      (∀ ps ks', ks'.filterMap balanceRank = ks.filterMap balanceRank → Q ps ks' ws) →
      (lockMatching matching ids).Obeys (orderly ranked open_) Q ks ws := by
    intro ids
    induction ids with
    | nil => exact fun ks Q hQ => hQ [] ks rfl
    | cons id ids ih =>
      intro ks Q hQ
      unfold lockMatching
      refine Prog.Obeys.bind (obeys_lockPayment ?_ ?_)
      · exact Prog.Obeys.bind (ih ks _ fun ps ks' hsame => hQ ps ks' hsame)
      · intro p _ _
        exact Prog.Obeys.bind (ih _ _ fun ps ks' hsame =>
          hQ _ ks' (hsame.trans (balances_addHeld rfl)))
  unfold selectForUpdate
  refine Prog.Obeys.select fun s => ?_
  exact Prog.Obeys.askFor fun order => hlock order.val ks Q hQ

/-- Nothing is asked of the end of a call. -/
def Anyhow (_ : Reply) (_ : List backend.Key) (_ : List (Write backend)) : Prop := True

theorem obeys_resolve {k : String} {req : CreatePaymentRequest} {id : Uuid}
    {result : AuthorizationResult} :
    (resolve k req id result).Obeys (orderly ranked open_) Anyhow [] [] := by
  unfold resolve
  refine Prog.Obeys.bind (obeys_applyResult plain_nil rfl ?_)
  intro p ks' ws' hws'
  refine Prog.Obeys.bind (obeys_complete hws' ?_)
  intro ks'' ws'' hws''
  exact Prog.Obeys.commitAll (executesAll_plain hws'') trivial

theorem obeys_create (ext : Externals) (k : String) (req : CreatePaymentRequest) :
    (create ext k req).Obeys (orderly ranked open_) Anyhow [] [] := by
  unfold create
  refine Prog.Obeys.drawIdent fun id => ?_
  refine Prog.Obeys.bind (obeys_claimOrReplay plain_nil ?_)
  intro replay ks' ws' hsame hws'
  cases replay with
  | none =>
    refine Prog.Obeys.askFor fun t => ?_
    refine Prog.Obeys.bind (obeys_hold hws' (fun _ => hsame) ?_)
    intro p ks''
    refine Prog.Obeys.commitAll (executesAll_plain plain_nil) ?_
    unfold afterHold
    refine Prog.Obeys.callOut fun ans => ?_
    cases ans with
    | error message => trivial
    | ok result => exact obeys_resolve
  | some stored =>
    refine Prog.Obeys.bind (obeys_ofExcept fun resp _ => ?_)
    exact Prog.Obeys.commitAll (executesAll_plain hws') trivial

theorem obeys_refund (ext : Externals) (k : String) (id : Uuid) (amount : ℤ)
    {Q : ℤ × RefundResponse → List backend.Key → List (Write backend) → Prop}
    (hQ : ∀ x ks' ws', Plain ws' → Q x ks' ws') :
    (refund ext k id amount).Obeys (orderly ranked open_) Q [] [] := by
  unfold refund
  refine Prog.Obeys.bind (obeys_claimOrReplay plain_nil ?_)
  intro replay ks' ws' hsame hws'
  cases replay with
  | none =>
    refine Prog.Obeys.bind (obeys_lockPayment trivial ?_)
    intro p _ _
    dsimp only
    split
    · trivial
    · split
      · trivial
      · refine Prog.Obeys.drawIdent fun rid => ?_
        refine Prog.Obeys.askFor fun t => ?_
        refine Prog.Obeys.stageRow (stages_plain (by simp [Write.row])) ?_
        refine Prog.Obeys.stageRow (stages_plain (by simp [Write.row])) ?_
        refine Prog.Obeys.bind (obeys_post (plain_append (plain_append hws' rfl) rfl) ?_ ?_)
        · intro _ a _
          apply climbs_none
          rw [balances_addHeld rfl]
          exact hsame
        · intro txn ks'' _ _
          refine Prog.Obeys.bind (obeys_addOutbox plain_nil ?_ ?_)
          · exact fun h => absurd h not_outcome_completed
          · intro ws'' hws''
            exact Prog.Obeys.bind (obeys_complete hws'' fun ks₃ ws₃ hws₃ => hQ _ ks₃ ws₃ hws₃)
  | some stored =>
    exact Prog.Obeys.bind (obeys_ofExcept fun resp _ => hQ _ _ _ hws')

theorem obeys_transition {eventType : Json} {reference : String}
    {Q : Unit → List backend.Key → List (Write backend) → Prop}
    (hnone : ks.filterMap balanceRank = []) (hQ : ∀ ks', Q () ks' []) :
    (transition eventType reference).Obeys (orderly ranked open_) Q ks [] := by
  unfold transition
  refine Prog.Obeys.bind (obeys_selectForUpdate ?_)
  intro ps ks' hsame
  rcases ps with _ | ⟨p, _ | ⟨q, ps⟩⟩
  · exact hQ ks'
  · by_cases hst : p.status = .authorized
    · simp only [if_pos hst]
      refine Prog.Obeys.bind (obeys_ofExcept ?_)
      intro kind _
      rcases kind with _ | _ | _
      · exact hQ ks'
      · exact Prog.Obeys.bind (obeys_settle plain_nil (fun _ => hsame.trans hnone) fun _ ks'' => hQ ks'')
      · exact Prog.Obeys.bind (obeys_reverse plain_nil (fun _ => Or.inl (hsame.trans hnone))
          fun _ ks'' _ => hQ ks'')
    · simp only [if_neg hst]
      exact hQ ks'
  · trivial

theorem obeys_handle (ext : Externals) (rawBody signature : String)
    {Q : Unit → List backend.Key → List (Write backend) → Prop} (hQ : ∀ ks', Q () ks' []) :
    (handle ext rawBody signature).Obeys (orderly ranked open_) Q [] [] := by
  have happly : ∀ event, (applyEvent rawBody event).Obeys (orderly ranked open_) Q [] [] := by
    intro event
    unfold applyEvent
    refine Prog.Obeys.bind (obeys_ofExcept fun eventId _ => ?_)
    refine Prog.Obeys.select fun s => ?_
    cases s.webhookEvents.find? eventId with
    | some e => exact hQ []
    | none =>
      refine Prog.Obeys.stageRow (stages_plain (by simp [Write.row])) ?_
      refine Prog.Obeys.flushAll (executesAll_plain (plain_append plain_nil rfl)) ?_
      have hnone : ([Key.webhookEvent eventId].filterMap balanceRank) = [] := rfl
      by_cases href : truthy event.pspReference = true
      · simp only [if_pos href]
        exact Prog.Obeys.bind (obeys_ofExcept fun reference _ => obeys_transition hnone hQ)
      · simp only [if_neg href]
        exact hQ _
  unfold handle
  split
  · trivial
  · refine Prog.Obeys.bind (obeys_ofExcept fun isValid _ => ?_)
    split
    · split
      · trivial
      · refine Prog.Obeys.drawIdent fun fresh => ?_
        exact Prog.Obeys.bind (obeys_ofExcept fun event _ => happly event)
    · trivial

/-- With several reversals, what may be assumed of the payments that are locked is needed. -/
theorem obeys_expireStaleHolds (timeoutMinutes : ℤ) (hopen : ranked → open_)
    {Q : ℕ → List backend.Key → List (Write backend) → Prop} (hQ : ∀ n ks', Q n ks' []) :
    (expireStaleHolds timeoutMinutes).Obeys (orderly ranked open_) Q [] [] := by
  have hall : ∀ ps count ks, (ranked → ks.filterMap balanceRank = [] ∨
      open_ ∧ .accountBalance suspenseAccountId ∈ ks) →
      (reverseAll ps count).Obeys (orderly ranked open_) Q ks [] := by
    intro ps
    induction ps with
    | nil => exact fun count ks _ => hQ count ks
    | cons p ps ih =>
      intro count ks hready
      refine Prog.Obeys.bind (obeys_reverse plain_nil hready ?_)
      intro _ ks' hsuspense
      exact ih _ ks' fun hr => Or.inr ⟨hopen hr, hsuspense⟩
  unfold expireStaleHolds
  refine Prog.Obeys.askFor fun t => ?_
  refine Prog.Obeys.bind (obeys_selectForUpdate ?_)
  intro ps ks' hsame
  exact hall ps 0 ks' fun _ => Or.inl hsame

theorem obeys_program (ext : Externals) {c : Call} (hc : ∀ n, c ≠ .drain n)
    (hopen : ranked → (∃ m, c = .expire m) → open_) :
    (program ext c).Obeys (orderly ranked open_) Anyhow [] [] := by
  cases c with
  | create k req => exact obeys_create ext k req
  | refund k id req =>
    refine Prog.Obeys.bind (obeys_refund ext k id req.amount ?_)
    exact fun _ _ _ hws' => Prog.Obeys.commitAll (executesAll_plain hws') trivial
  | webhook rawBody signature =>
    refine Prog.Obeys.bind (obeys_handle ext rawBody signature ?_)
    exact fun _ => Prog.Obeys.commitAll (executesAll_plain plain_nil) trivial
  | expire m =>
    refine Prog.Obeys.bind (obeys_expireStaleHolds m (fun hr => hopen hr ⟨m, rfl⟩) ?_)
    exact fun _ _ => Prog.Obeys.commitAll (executesAll_plain plain_nil) trivial
  | post type referenceId postings =>
    refine Prog.Obeys.bind (obeys_post plain_nil (fun _ a _ => climbs_none rfl _) ?_)
    exact fun _ _ _ _ => Prog.Obeys.commitAll (executesAll_plain plain_nil) trivial
  | drain n => exact absurd rfl (hc n)

end Services

section Draining

variable {ks : List backend.Key} {ws : List (Write backend)}

/-- The policy of the relay: it locks outbox rows, if they are free, and updates those that
it has locked. -/
def draining : Policy backend where
  locks _ _ := False
  finds _ _ := True
  tries k := ∃ id, k = .outbox id
  stages ks w := ∃ ev, w = .update (.outbox ev) ∧ w.key ∈ ks
  executes ks w := w.key ∈ ks

theorem obeys_lockUnpublished (limit : ℕ) (ids : List Uuid)
    {Q : List Outbox → List backend.Key → List (Write backend) → Prop}
    (hQ : ∀ evs ks', ks ⊆ ks' → (∀ ev ∈ evs, .outbox ev.id ∈ ks') → Q evs ks' []) :
    (lockUnpublished limit ids).Obeys draining Q ks [] := by
  induction ids generalizing limit ks Q with
  | nil => exact hQ [] ks (List.Subset.refl ks) (by simp)
  | cons id ids ih =>
    cases limit with
    | zero => exact hQ [] ks (List.Subset.refl ks) (by simp)
    | succ limit =>
      have hgrow := subset_addHeld ks (.outbox id)
      unfold lockUnpublished tryLockOutbox
      rw [Prog.bind_assoc]
      refine Prog.Obeys.tryLockRow ⟨id, rfl⟩ (ih (limit + 1) hQ) ?_
      intro s row hrow
      obtain ⟨ev, hev, rfl⟩ := Option.map_eq_some_iff.mp hrow
      have hid : ev.id = id := Table.key_of_find? hev
      change (if ev.publishedAt.isNone then _ else _ : Program (List Outbox)).Obeys _ _ _ _
      split
      · refine Prog.Obeys.bind (ih limit ?_)
        intro evs ks' hsub hall
        refine hQ (ev :: evs) ks' (List.Subset.trans hgrow hsub) ?_
        intro e he
        rcases List.mem_cons.mp he with rfl | he
        · rw [hid]
          exact hsub (mem_addHeld_self _ _)
        · exact hall e he
      · refine ih (limit + 1) ?_
        exact fun evs ks' hsub hall => hQ evs ks' (List.Subset.trans hgrow hsub) hall

theorem executesAll_draining (h : ∀ w ∈ ws, w.key ∈ ks) : draining.ExecutesAll ks ws := by
  induction ws generalizing ks with
  | nil => trivial
  | cons w ws ih =>
    refine ⟨h w (List.mem_cons_self ..), ih fun v hv => ?_⟩
    exact subset_addHeld _ _ (h v (List.mem_cons_of_mem _ hv))

theorem obeys_drain (ext : Externals) (n : ℕ) :
    (program ext (.drain n)).Obeys draining Anyhow [] [] := by
  unfold program drainBatch selectUnpublished
  simp only
  rw [Prog.bind_assoc, Prog.bind_assoc]
  refine Prog.Obeys.select fun s => ?_
  rw [Prog.bind_assoc]
  refine Prog.Obeys.askFor fun order => ?_
  refine Prog.Obeys.bind (obeys_lockUnpublished _ _ ?_)
  intro evs ks' _ hheld
  cases evs with
  | nil =>
    dsimp only
    rw [Prog.bind_assoc]
    have hnone : draining.ExecutesAll ks' [] := trivial
    exact Prog.Obeys.commitAll hnone trivial
  | cons ev evs =>
    have hall : ∀ t, ∀ w ∈ publishAll t (ev :: evs), draining.stages ks' w := by
      intro t w hw
      obtain ⟨ev', hev', rfl⟩ := List.mem_map.mp hw
      exact ⟨_, rfl, hheld ev' hev'⟩
    dsimp only
    rw [Prog.bind_assoc]
    refine Prog.Obeys.askFor fun t => ?_
    rw [Prog.bind_assoc]
    refine Prog.Obeys.stageRows (hall t) ?_
    rw [List.nil_append, Prog.bind_assoc]
    refine Prog.Obeys.commitAll (executesAll_draining ?_) trivial
    intro w hw
    exact (hall t w hw).choose_spec.2

theorem neverWaits_draining : draining.NeverWaits where
  locks _ _ h := h
  executes _ _ h := h

theorem inside_lockUnpublished (limit : ℕ) (ids : List Uuid) :
    (lockUnpublished limit ids).Inside := by
  induction ids generalizing limit with
  | nil => trivial
  | cons id ids ih =>
    cases limit with
    | zero => trivial
    | succ limit =>
      unfold lockUnpublished
      refine Prog.Inside.bind ?_ fun found => ?_
      · refine Prog.Inside.bind (fun _ => trivial) fun row => ?_
        cases row with
        | none => trivial
        | some row => cases row <;> trivial
      · cases found with
        | none => exact ih (limit + 1)
        | some ev =>
          dsimp only
          split
          · exact Prog.Inside.bind (ih limit) fun _ => trivial
          · exact ih (limit + 1)

/-- A drain flushes what it stages before it commits. -/
theorem closes_drain (ext : Externals) (n : ℕ) : (program ext (.drain n)).Closes true := by
  unfold program drainBatch selectUnpublished
  simp only
  rw [Prog.bind_assoc]
  refine Prog.Inside.closes_bind ?_ (fun evs => ?_) true
  · refine Prog.Inside.bind (Prog.inside_select _) fun found => ?_
    exact Prog.Inside.bind (Prog.inside_askFor _) fun order => inside_lockUnpublished _ _
  · cases evs with
    | nil =>
      dsimp only
      rw [Prog.bind_assoc]
      exact Prog.closes_commitAll _
    | cons ev evs =>
      dsimp only
      rw [Prog.bind_assoc]
      refine Prog.Inside.closes_bind (Prog.inside_askFor _) (fun t => ?_) false
      rw [Prog.bind_assoc]
      refine Prog.Inside.closes_bind (Prog.inside_stageRows _) (fun _ => ?_) false
      rw [Prog.bind_assoc]
      exact Prog.closes_commitAll _

end Draining

end ApexPayments.Service
