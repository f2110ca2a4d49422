import ApexPayments.Transactions

/-!
The transactions of `WebhookService.handle`, of hold expiry and of a direct post:
what they change when they commit, and when they can fail for lack of funds.
-/
namespace ApexPayments.Service

open Domain Store Ledger Payments Webhooks RowLocking

variable {F : Frame backend}

section Expiry

/-- Reversals one after the other. -/
inductive ReversedAll : List Payment → Database → List Uuid → Database → List Uuid → Prop
  | nil (s : Database) (used : List Uuid) : ReversedAll [] s used s used
  | cons (p : Payment) (ps : List Payment) (s : Database) (used : List Uuid) (ids : List Uuid)
      (s₁ s₂ : Database) (used₂ : List Uuid) (found : s.payments.find? p.id = some p)
      (moved : Moved used s p (reversed p) ids s₁)
      (rest : ReversedAll ps s₁ (ids ++ used) s₂ used₂) : ReversedAll (p :: ps) s used s₂ used₂

/-- A shortage of funds, at the reversal that follows those already done. -/
def ExpireFails (F : Frame backend) (s : Database) (used : List Uuid) (ps : List Payment)
    (e : Exn) : Prop :=
  Untriggered F e ∧ ((∃ a b n, e = .insufficientFunds a b n) →
    ∃ done p rest s₁ used₁, ps = done ++ p :: rest ∧ ReversedAll done s used s₁ used₁ ∧
      s₁.payments.find? p.id = some p ∧ balanceOf s₁ suspenseAccountId < p.amount)

theorem reverseAll_ensures (ps : List Payment) (n : ℕ) (L : Session backend) (hp : L.pending = [])
    (hfound : ∀ p ∈ ps, (F.working L).payments.find? p.id = some p)
    (hnodup : (ps.map Payment.id).Nodup) :
    (reverseAll ps n).Ensures F L (Stop.Ends
      (fun e _ => ExpireFails F (F.working L) (usedBy F L) ps e)
      (fun m L' => m = n + ps.length ∧ Keeps F L L' ∧ L'.pending = [] ∧
        ReversedAll ps (F.working L) (usedBy F L) (F.working L') (usedBy F L'))) := by
  induction ps generalizing n L with
  | nil => exact Prog.Ensures.pure ⟨rfl, Keeps.refl L, hp, .nil _ _⟩
  | cons p ps ih =>
    have hp₀ := hfound p (List.mem_cons_self ..)
    rw [List.map_cons, List.nodup_cons] at hnodup
    unfold reverseAll
    refine Prog.Ensures.bind (reverse_ensures p.id L hp) ?_ ?_
    · intro e _ he
      obtain ⟨hu, hf⟩ := resolveFails_of_reverse he
      refine ⟨hu, ?_⟩
      rintro ⟨a, b, m, hab⟩
      obtain ⟨q, hq, hlt⟩ := hf a b m hab
      rw [hp₀] at hq
      cases hq
      exact ⟨[], p, ps, _, _, rfl, .nil _ _, hp₀, hlt⟩
    · rintro q L₁ ⟨p', txn, event, rfl, h⟩
      have hfound' := h.found
      rw [hp₀] at hfound'
      cases hfound'
      obtain ⟨hmoved, hused⟩ := moved_of_reverse h
      have hrest : ∀ x ∈ ps, (F.working L₁).payments.find? x.id = some x := by
        intro x hx
        have hne : x.id ≠ (reversed p).id := fun he =>
          hnodup.1 (he ▸ List.mem_map_of_mem hx)
        rw [hmoved.find_of_ne hne]
        exact hfound x (List.mem_cons_of_mem _ hx)
      refine (ih (n + 1) L₁ h.pending hrest hnodup.2).ends ?_ ?_
      · rintro e _ ⟨hu, hf⟩
        refine ⟨hu, fun hab => ?_⟩
        obtain ⟨done, x, rest, s₁, used₁, rfl, hdone, hx, hlt⟩ := hf hab
        refine ⟨p :: done, x, rest, s₁, used₁, rfl, ?_, hx, hlt⟩
        rw [hused] at hdone
        exact .cons p done _ _ _ _ _ _ hp₀ hmoved hdone
      · rintro m L₂ ⟨rfl, hk, hpend, hall⟩
        refine ⟨?_, (keeps_resolve h).trans hk, hpend, ?_⟩
        · rw [List.length_cons]
          omega
        · rw [hused] at hall
          exact .cons p ps _ _ _ _ _ _ hp₀ hmoved hall

/-- The commit of hold expiry. -/
structure Expires (F : Frame backend) (ps : List Payment) (next : Program Reply)
    (L : Session backend) : Prop where
  stale : ∀ p ∈ ps, p.status = .authorized ∧ F.hi.payments.find? p.id = some p
  nodup : (ps.map Payment.id).Nodup
  reversed : ReversedAll ps F.hi F.spent (view F.hi L.flushed) (usedBy F L)
  next : next = pure (.expired ps.length)

/-- Why hold expiry can fail. -/
def ExpiryFails (F : Frame backend) (e : Exn) : Prop :=
  Untriggered F e ∧ ((∃ a b n, e = .insufficientFunds a b n) →
    ∃ ps, (∀ p ∈ ps, p.status = .authorized ∧ F.hi.payments.find? p.id = some p) ∧
      (ps.map Payment.id).Nodup ∧ ExpireFails F F.hi F.spent ps e)

theorem expireStaleHolds_ensures (timeoutMinutes : ℤ) :
    (expireStaleHolds timeoutMinutes).Ensures F (.fresh backend) (Stop.Ends
      (fun e _ => ExpiryFails F e)
      (fun n L => Keeps F (.fresh backend) L ∧ ∃ ps, n = ps.length ∧
        Expires F ps (pure (.expired n)) L.flushAll)) := by
  unfold expireStaleHolds
  refine ensures_now ?_
  intro t
  refine Prog.Ensures.bind (selectForUpdate_ensures _ _) (fun _ _ h => h.elim) ?_
  rintro ps L ⟨s, h⟩
  have hstale : ∀ p ∈ ps, p.status = .authorized ∧ F.hi.payments.find? p.id = some p := by
    intro p hp
    obtain ⟨hm, hfind⟩ := h.current p hp
    rw [decide_eq_true_eq] at hm
    exact ⟨hm.1, hfind⟩
  have hwork : F.working L = F.hi := h.working rfl
  have hused : usedBy F L = F.spent := h.used
  refine (reverseAll_ensures ps 0 L h.pending ?_ h.nodup).ends ?_ ?_
  · rw [hwork]
    exact fun p hp => (hstale p hp).2
  · rintro e _ he
    rw [hwork, hused] at he
    exact ⟨he.1, fun _ => ⟨ps, hstale, h.nodup, he⟩⟩
  · rintro n L' ⟨rfl, hk, _, hall⟩
    rw [hwork, hused, ← Frame.working_flushAll, Frame.working_of_pending L'.flushAll rfl] at hall
    exact ⟨h.keeps.trans hk, ps, Nat.zero_add _, hstale, h.nodup, hall, by rw [Nat.zero_add]⟩

theorem expire_ensures (ext : Externals) (timeoutMinutes : ℤ) :
    (program ext (.expire timeoutMinutes)).Ensures F (.fresh backend) (Stop.Commits
      (ExpiryFails F) (fun next L => ∃ ps, Expires F ps next L)) := by
  refine Prog.Ensures.bind (expireStaleHolds_ensures timeoutMinutes) (fun _ _ h => h) ?_
  rintro n L ⟨hk, ps, rfl, h⟩
  refine ensures_commit hk ⟨ps, h⟩ ?_ ?_
  · intro e he
    refine ⟨untriggered_of_refused he, ?_⟩
    rintro ⟨a, b, m, rfl⟩
    simp [Refused] at he
  · rintro e he ⟨i, m, rfl⟩
    exact ⟨he, by simp⟩

end Expiry

section Webhook

/-- The event that a body decodes to, with its key. -/
def Decodes (ext : Externals) (rawBody fresh : String) (event : Event) (eventId : String) : Prop :=
  ∃ data, ext.loads rawBody = some data ∧ parseEvent fresh data = .ok event ∧
    eventKey event.eventId = .ok eventId

/-- What the service makes of the payments that its lookup found and locked. -/
inductive Transitions (eventType : Json) (reference : String) (ps : List Payment) (s : Database)
    (used : List Uuid) : Database → List Uuid → Prop
  | idle (hidle : ∀ p ∈ ps, p.status = .authorized → kindOf eventType = .ok none) :
      Transitions eventType reference ps s used s used
  | captured (p : Payment) (ids : List Uuid) (s' : Database) (hps : ps = [p])
      (hst : p.status = .authorized) (hkind : kindOf eventType = .ok (some .capture))
      (hmoved : Moved used s p (settled reference p) ids s') :
      Transitions eventType reference ps s used s' (ids ++ used)
  | failed (p : Payment) (ids : List Uuid) (s' : Database) (hps : ps = [p])
      (hst : p.status = .authorized) (hkind : kindOf eventType = .ok (some .failure))
      (hmoved : Moved used s p (reversed p) ids s') :
      Transitions eventType reference ps s used s' (ids ++ used)

/-- The payments that a lookup by reference found and locked; `s` is the store that
its query read. -/
structure Looked (F : Frame backend) (reference : String) (s : Database) (ps : List Payment) :
    Prop where
  sees : F.Sees s
  found : ∀ p ∈ ps, ∃ p₀ ∈ s.payments.rows, p₀.pspReference = some reference ∧ p₀.id = p.id
  current : ∀ p ∈ ps, p.pspReference = some reference ∧ F.hi.payments.find? p.id = some p
  complete : ∀ p₀ ∈ s.payments.rows, p₀.pspReference = some reference →
    (∃ t, F.Sees t ∧ F.older s t ∧ t.payments.find? p₀.id = none) ∨
      ∃ p, F.hi.payments.find? p₀.id = some p ∧ (p.pspReference = some reference → p ∈ ps)

/-- A webhook can fail for lack of funds only on an authorized payment that the
suspense account cannot cover. -/
def DeliveryFails (F : Frame backend) (s : Database) (e : Exn) : Prop :=
  Untriggered F e ∧ ((∃ a b n, e = .insufficientFunds a b n) →
    ∃ p, s.payments.find? p.id = some p ∧ p.status = .authorized ∧
      balanceOf s suspenseAccountId < p.amount)

theorem deliveryFails_of_plain {s : Database} {e : Exn} (h : ∀ i n, e ≠ .ledgerUnbalanced i n)
    (h' : ∀ a b n, e ≠ .insufficientFunds a b n) : DeliveryFails F s e :=
  ⟨fun _ => h, fun ⟨a, b, n, he⟩ => (h' a b n he).elim⟩

theorem deliveryFails_of_refused {s : Database} {e : Exn} (h : Refused e) : DeliveryFails F s e := by
  refine ⟨untriggered_of_refused h, ?_⟩
  rintro ⟨a, b, n, rfl⟩
  simp [Refused] at h

theorem deliveryFails_of_resolve {s : Database} {p : Payment} {e : Exn}
    (hp : s.payments.find? p.id = some p) (hst : p.status = .authorized)
    (h : ResolveFails F s p.id e) : DeliveryFails F s e := by
  refine ⟨h.1, ?_⟩
  rintro ⟨a, b, n, he⟩
  obtain ⟨q, hq, hlt⟩ := h.2 a b n he
  rw [hp] at hq
  cases hq
  exact ⟨p, hp, hst, hlt⟩

theorem kindOf_error {eventType : Json} {e : Exn} (h : kindOf eventType = .error e) :
    e = .typeError := by
  cases eventType with
  | str s =>
    simp only [kindOf] at h
    split at h
    · contradiction
    · split at h <;> contradiction
  | arr xs =>
    cases h
    rfl
  | obj fields =>
    cases h
    rfl
  | _ => contradiction

theorem transition_ensures (eventType : Json) (reference : String) (L : Session backend)
    (hp : L.pending = []) :
    (transition eventType reference).Ensures F L (Stop.Ends
      (fun e _ => DeliveryFails F (F.working L) e)
      (fun _ L' => Keeps F L L' ∧ ∃ s ps L₁,
        Selected F (fun p => p.pspReference = some reference) L s ps L₁ ∧
          L₁.snapshots <:+ L'.snapshots ∧ Transitions eventType reference ps (F.working L)
            (usedBy F L) (F.working L') (usedBy F L'))) := by
  unfold transition
  refine Prog.Ensures.bind (selectForUpdate_ensures _ L) (fun _ _ h => h.elim) ?_
  rintro ps L₁ ⟨s, h⟩
  have hp₁ : L₁.pending = [] := h.pending.trans hp
  have hwork := h.working hp
  have hused := h.used
  have hidle : (∀ p ∈ ps, p.status = .authorized → kindOf eventType = .ok none) →
      Keeps F L L₁ ∧ ∃ s ps L₂, Selected F (fun p => p.pspReference = some reference) L s ps L₂ ∧
        L₂.snapshots <:+ L₁.snapshots ∧ Transitions eventType reference ps (F.working L)
          (usedBy F L) (F.working L₁) (usedBy F L₁) := by
    intro hi
    refine ⟨h.keeps, s, ps, L₁, h, List.suffix_refl _, ?_⟩
    rw [hwork, hused]
    exact .idle hi
  rcases ps with _ | ⟨p, _ | ⟨p', ps⟩⟩
  · exact Prog.Ensures.pure (hidle (by simp))
  · have hfound : (F.working L).payments.find? p.id = some p := by
      rw [Frame.working_of_pending L hp]
      exact (h.current p (List.mem_cons_self ..)).2
    have hres : ∀ e, ResolveFails F (F.working L₁) p.id e → p.status = .authorized →
        DeliveryFails F (F.working L) e := by
      intro e he hst
      rw [hwork] at he
      exact deliveryFails_of_resolve hfound hst he
    have hsame : ∀ p', (F.working L₁).payments.find? p.id = some p' → p' = p := by
      intro p' hp'
      rw [hwork, hfound] at hp'
      exact (Option.some.inj hp').symm
    dsimp only
    split
    · rename_i hst
      refine ensures_ofExcept ?_ fun e he => ?_
      · rintro (_ | _ | _) hkind
        · exact Prog.Ensures.pure (hidle fun _ _ _ => hkind)
        · refine Prog.Ensures.bind (settle_ensures p.id reference L₁ hp₁).withSnapshots
            (fun e _ he => hres e (resolveFails_of_settle he) hst) ?_
          rintro q L₂ ⟨⟨p', txn, event, rfl, hr⟩, hsnap⟩
          obtain rfl := hsame p' hr.found
          obtain ⟨hmoved, hused'⟩ := moved_of_settle hr
          rw [hwork, hused] at hmoved
          refine Prog.Ensures.pure ⟨h.keeps.trans (keeps_resolve hr), s, [p'], L₁, h, hsnap, ?_⟩
          rw [hused', hused]
          exact .captured p' _ _ rfl hst hkind hmoved
        · refine Prog.Ensures.bind (reverse_ensures p.id L₁ hp₁).withSnapshots
            (fun e _ he => hres e (resolveFails_of_reverse he) hst) ?_
          rintro q L₂ ⟨⟨p', txn, event, rfl, hr⟩, hsnap⟩
          obtain rfl := hsame p' hr.found
          obtain ⟨hmoved, hused'⟩ := moved_of_reverse hr
          rw [hwork, hused] at hmoved
          refine Prog.Ensures.pure ⟨h.keeps.trans (keeps_resolve hr), s, [p'], L₁, h, hsnap, ?_⟩
          rw [hused', hused]
          exact .failed p' _ _ rfl hst hkind hmoved
      · obtain rfl := kindOf_error he
        exact deliveryFails_of_plain (by simp) (by simp)
    · rename_i hst
      refine Prog.Ensures.pure (hidle ?_)
      intro q hq hauth
      rw [List.mem_singleton.mp hq] at hauth
      exact absurd hauth hst
  · exact Prog.Ensures.raise (deliveryFails_of_plain (by simp) (by simp))

/-- What follows the insertion of the event row. -/
inductive Applied (F : Frame backend) (event : Event) (s : Database) (used : List Uuid)
    (L : Session backend) : Prop
  | unreferenced (hfalsy : truthy event.pspReference = false) (hwork : F.working L = s)
      (hused : usedBy F L = used)
  | looked (reference : String) (store : Database) (ps : List Payment)
      (href : event.pspReference = .str reference) (hne : reference ≠ "")
      (hlook : Looked F reference store ps) (hsnap : L.snapshots.reverse[1]? = some store)
      (htrans : Transitions event.eventType reference ps s used (F.working L) (usedBy F L))

/-- The commit of a webhook whose event was new. -/
structure Records (F : Frame backend) (rawBody : String) (event : Event) (eventId : String)
    (i : Uuid) (L : Session backend) : Prop where
  fresh : F.hi.webhookEvents.find? eventId = none
  applied : Applied F event (F.hi.put (.webhookEvent ⟨eventId, rawBody, .processed⟩))
    (i :: F.spent) L

theorem textParameter_ok {column : String} {j : Json} {r : String}
    (h : textParameter column j = .ok r) : j = .str r := by
  cases j with
  | str s =>
    simp only [textParameter] at h
    split at h
    · contradiction
    · cases h
      rfl
  | _ => contradiction

theorem textParameter_error {column : String} {j : Json} {e : Exn}
    (h : textParameter column j = .error e) : e = .dataError column := by
  cases j with
  | str s =>
    simp only [textParameter] at h
    split at h
    · cases h
      rfl
    · contradiction
  | _ =>
    cases h
    rfl

theorem eventKey_error {j : Json} {e : Exn} (h : eventKey j = .error e) :
    e = .dataError "psp_event_id" ∨ ∃ c, e = .notNullViolation c := by
  cases j with
  | null =>
    cases h
    exact Or.inr ⟨_, rfl⟩
  | _ =>
    simp only [eventKey] at h
    exact Or.inl (textParameter_error h)

theorem applyEvent_ensures (rawBody : String) (event : Event) (i : Uuid) :
    (applyEvent rawBody event).Ensures F ((Session.fresh backend).draw i) (Stop.Ends
      (fun e _ => DeliveryFails F F.hi e)
      (fun _ L => ∃ eventId, eventKey event.eventId = .ok eventId ∧
        ((L.flushed = [] ∧ L.pending = []) ∨
          Keeps F (.fresh backend) L ∧ Records F rawBody event eventId i L))) := by
  unfold applyEvent
  refine ensures_ofExcept ?_ ?_
  · intro eventId hkey
    refine Prog.Ensures.select ?_
    intro s₀ hs₀
    cases hfind : (view s₀ ((Session.fresh backend).draw i).flushed).webhookEvents.find? eventId with
    | some r => exact Prog.Ensures.pure ⟨eventId, hkey, Or.inl ⟨rfl, rfl⟩⟩
    | none =>
      refine ensures_add (ensures_flush ?_ fun e _ he =>
        deliveryFails_of_refused (refused_of_flushFails he))
      intro hf
      set w : Write backend := .insert (.webhookEvent ⟨eventId, rawBody, .processed⟩) with hw
      set L := ((((Session.fresh backend).draw i).see s₀).stage w).flushAll with hL
      have hfresh : F.hi.webhookEvents.find? eventId = none :=
        Option.map_eq_none_iff.mp (Frame.fresh_of_flushes hf)
      have hwork : F.working L = F.hi.put (.webhookEvent ⟨eventId, rawBody, .processed⟩) := by
        rw [hL, Frame.working_flushAll, Frame.working_stage]
        rfl
      have hkeeps : Keeps F (.fresh backend) L := by
        have hstage : Keeps F (((Session.fresh backend).draw i).see s₀)
            ((((Session.fresh backend).draw i).see s₀).stage w) := keeps_stage rfl trivial
        exact (((keeps_draw _ i).trans (keeps_see _ s₀)).trans hstage).trans (keeps_flushAll _)
      split
      · rename_i htruthy
        refine ensures_ofExcept ?_ ?_
        · intro reference href
          have hstr := textParameter_ok href
          refine (transition_ensures event.eventType reference L rfl).ends ?_ ?_
          · rintro e _ ⟨hu, hfail⟩
            rw [hwork] at hfail
            exact ⟨hu, hfail⟩
          · rintro _ L' ⟨hk, s, ps, L₁, hsel, hsnap, htrans⟩
            refine ⟨eventId, hkey, Or.inr ⟨hkeeps.trans hk, hfresh,
              .looked reference s ps hstr ?_ ⟨hsel.reads.1, ?_, ?_, ?_⟩ ?_ ?_⟩⟩
            · rintro rfl
              rw [hstr] at htruthy
              simp [truthy] at htruthy
            · intro p hp
              obtain ⟨p₀, hp₀, hm, hid⟩ := hsel.found p hp
              exact ⟨p₀, hp₀, of_decide_eq_true hm, hid⟩
            · intro p hp
              obtain ⟨hm, hcur⟩ := hsel.current p hp
              exact ⟨of_decide_eq_true hm, hcur⟩
            · intro p₀ hp₀ href₀
              rcases hsel.complete p₀ hp₀ (decide_eq_true href₀) with ⟨t, ht, ho, hn⟩ | ⟨p, hp, hm⟩
              · exact Or.inl ⟨t, ht, ho, hn⟩
              · exact Or.inr ⟨p, hp, fun hr => hm (decide_eq_true hr)⟩
            · obtain ⟨later, hlater⟩ := hsel.seen.trans hsnap
              rw [← hlater]
              simp [hL, Session.flushAll, Session.stage, Session.see, Session.draw, Session.fresh]
            · rw [hwork] at htrans
              exact htrans
        · intro e he
          obtain rfl := textParameter_error he
          exact deliveryFails_of_plain (by simp) (by simp)
      · rename_i hfalsy
        exact Prog.Ensures.pure ⟨eventId, hkey, Or.inr ⟨hkeeps, hfresh,
          .unreferenced (by simpa using hfalsy) hwork rfl⟩⟩
  · intro e he
    rcases eventKey_error he with rfl | ⟨c, rfl⟩ <;>
      exact deliveryFails_of_plain (by simp) (by simp)

theorem signature_error {ext : Externals} {rawBody signature : String} {e : Exn}
    (h : signatureIsValid ext rawBody signature = .error e) : e = .typeError := by
  have hw : ∀ e, webhookSignatureIsValid ext rawBody signature = .error e → e = .typeError := by
    intro e he
    unfold webhookSignatureIsValid at he
    split at he
    · contradiction
    · split at he
      · contradiction
      · split at he
        · contradiction
        · cases he
          rfl
  unfold signatureIsValid at h
  cases hv : webhookSignatureIsValid ext rawBody signature with
  | error e' =>
    rw [hv] at h
    cases h
    exact hw e hv
  | ok b =>
    rw [hv] at h
    cases b <;> contradiction

theorem deliveryFails_of_signature {ext : Externals} {rawBody signature : String}
    {s : Database} {e : Exn} (h : signatureIsValid ext rawBody signature = .error e) :
    DeliveryFails F s e := by
  rw [signature_error h]
  exact deliveryFails_of_plain (by simp) (by simp)

/-- An error of Python's own operators on a decoded body. -/
def Pythonic (e : Exn) : Prop :=
  e = .typeError ∨ (∃ k, e = .keyError k) ∨ ∃ n, e = .attributeError n

theorem pythonic_of_contains {j : Json} {k : String} {e : Exn} (h : contains j k = .error e) :
    Pythonic e := by
  cases j <;> simp only [contains] at h <;> first | contradiction | (cases h; exact Or.inl rfl)

theorem pythonic_of_subscript {j : Json} {k : String} {e : Exn} (h : subscript j k = .error e) :
    Pythonic e := by
  cases j with
  | obj fields =>
    simp only [subscript] at h
    split at h
    · contradiction
    · cases h
      exact Or.inr (Or.inl ⟨k, rfl⟩)
  | _ =>
    cases h
    exact Or.inl rfl

theorem pythonic_of_getField {j : Json} {k : String} {e : Exn} (h : getField j k = .error e) :
    Pythonic e := by
  cases j with
  | obj fields => contradiction
  | _ =>
    cases h
    exact Or.inr (Or.inr ⟨_, rfl⟩)

/-- Errors of a sequence come from one of its parts. -/
theorem error_bind {α β : Type} {x : Except Exn α} {f : α → Except Exn β} {P : Exn → Prop}
    (hx : ∀ e, x = .error e → P e) (hf : ∀ a e, f a = .error e → P e) :
    ∀ e, (x >>= f) = .error e → P e := by
  intro e h
  cases x with
  | error e' =>
    cases h
    exact hx e rfl
  | ok a => exact hf a e h

theorem pythonic_of_parse {fresh : String} {data : Json} :
    ∀ e, parseEvent fresh data = .error e → Pythonic e := by
  have hget : ∀ (j : Json) (k : String) (e : Exn), getField j k = .error e → Pythonic e :=
    fun _ _ _ => pythonic_of_getField
  have hsub : ∀ (j : Json) (k : String) (e : Exn), subscript j k = .error e → Pythonic e :=
    fun _ _ _ => pythonic_of_subscript
  have hok : ∀ (v : Event) (e : Exn), (pure v : Except Exn Event) = .error e → Pythonic e :=
    fun _ _ h => by contradiction
  unfold parseEvent isStripeFormat
  refine error_bind ?_ ?_
  · refine error_bind (fun _ => pythonic_of_contains) ?_
    rintro (_ | _)
    · intro e h
      contradiction
    · exact error_bind (hsub _ _) fun _ _ => pythonic_of_contains
  · rintro (_ | _)
    · refine error_bind (hget _ _) fun _ => error_bind (hget _ _) fun _ =>
        error_bind (hget _ _) fun _ => error_bind (hget _ _) fun _ =>
          error_bind (hget _ _) fun _ => hok _
    · refine error_bind (hget _ _) fun _ => error_bind (hget _ _) fun _ =>
        error_bind (hsub _ _) fun _ => error_bind (hsub _ _) fun _ =>
          error_bind (hget _ _) fun _ => hok _

/-- The commit of a webhook. -/
structure Webhooked (F : Frame backend) (ext : Externals) (rawBody : String) (event : Event)
    (eventId : String) (i : Uuid) (next : Program Reply) (L : Session backend) : Prop where
  unspent : i ∉ F.spent
  decodes : Decodes ext rawBody i.str event eventId
  next : next = pure .handled
  effect : L.flushed = [] ∨ Records F rawBody event eventId i L

theorem handle_ensures (ext : Externals) (rawBody signature : String) :
    (handle ext rawBody signature).Ensures F (.fresh backend) (Stop.Ends
      (fun e _ => DeliveryFails F F.hi e)
      (fun _ L => ∃ event eventId i, i ∉ F.spent ∧ Decodes ext rawBody i.str event eventId ∧
        ((L.flushed = [] ∧ L.pending = []) ∨
          Keeps F (.fresh backend) L ∧ Records F rawBody event eventId i L))) := by
  have hplain : ∀ e : Exn, (∀ i n, e ≠ .ledgerUnbalanced i n) →
      (∀ a b n, e ≠ .insufficientFunds a b n) → DeliveryFails F F.hi e :=
    fun e => deliveryFails_of_plain
  unfold handle
  split
  · exact Prog.Ensures.raise (hplain _ (by simp) (by simp))
  · refine ensures_ofExcept ?_ fun e => deliveryFails_of_signature
    intro isValid _
    split
    · split
      · exact Prog.Ensures.raise (hplain _ (by simp) (by simp))
      · rename_i data hdata
        refine ensures_uuid4 ?_
        intro i hi _
        refine ensures_ofExcept ?_ ?_
        · intro event hevent
          refine (applyEvent_ensures rawBody event i).ends (fun _ _ h => h) ?_
          rintro _ L ⟨eventId, hkey, h⟩
          exact ⟨event, eventId, i, hi, ⟨data, hdata, hevent, hkey⟩, h⟩
        · intro e he
          rcases pythonic_of_parse e he with rfl | ⟨k, rfl⟩ | ⟨n, rfl⟩ <;>
            exact hplain _ (by simp) (by simp)
    · exact Prog.Ensures.raise (hplain _ (by simp) (by simp))

theorem applied_congr {event : Event} {s : Database} {used : List Uuid} {L L' : Session backend}
    (h : Applied F event s used L) (hw : F.working L' = F.working L) (hd : L'.drawn = L.drawn)
    (hs : L'.snapshots = L.snapshots) : Applied F event s used L' := by
  have hu : usedBy F L' = usedBy F L := by rw [usedBy, hd, usedBy]
  cases h with
  | unreferenced hfalsy hwork hused =>
    exact .unreferenced hfalsy (hw.trans hwork) (hu.trans hused)
  | looked reference store ps href hne hlook hsnap htrans =>
    refine .looked reference store ps href hne hlook (by rw [hs]; exact hsnap) ?_
    rw [hw, hu]
    exact htrans

theorem webhook_ensures (ext : Externals) (rawBody signature : String) :
    (program ext (.webhook rawBody signature)).Ensures F (.fresh backend) (Stop.Commits
      (DeliveryFails F F.hi)
      (fun next L => ∃ event eventId i, Webhooked F ext rawBody event eventId i next L ∧
        L.pending = [])) := by
  refine Prog.Ensures.bind (handle_ensures ext rawBody signature) (fun _ _ h => h) ?_
  rintro _ L ⟨event, eventId, i, hi, hdec, ⟨hfl, hp⟩ | ⟨hk, hr⟩⟩
  · exact ensures_commit_nothing hfl hp ⟨event, eventId, i, ⟨hi, hdec, rfl, Or.inl hfl⟩, hp⟩
  · refine ensures_commit hk ⟨event, eventId, i, ⟨hi, hdec, rfl, Or.inr ⟨hr.fresh, ?_⟩⟩, rfl⟩
      (fun e he => deliveryFails_of_refused he) ?_
    · exact applied_congr hr.applied (Frame.working_flushAll L) rfl rfl
    · rintro e he ⟨j, n, rfl⟩
      exact ⟨he, by simp⟩

end Webhook

section Post

/-- The commit of a direct post. -/
structure PostCommits (F : Frame backend) (type : TransactionType) (referenceId : Uuid)
    (postings : List Posting) (txn : LedgerTransaction) (next : Program Reply)
    (L : Session backend) : Prop where
  posted : Posted F.hi (view F.hi L.flushed) txn postings
  type : txn.type = type
  reference : txn.referenceId = referenceId
  unspent : txn.id ∉ F.spent
  used : usedBy F L = txn.id :: F.spent
  next : next = pure (.posted txn)

theorem directPost_ensures (ext : Externals) (type : TransactionType) (referenceId : Uuid)
    (postings : List Posting) :
    (program ext (.post type referenceId postings)).Ensures F (.fresh backend) (Stop.Commits
      (Untriggered F)
      (fun next L => ∃ txn, PostCommits F type referenceId postings txn next L)) := by
  refine Prog.Ensures.bind (post_ensures type referenceId postings (.fresh backend))
    (fun _ _ h => untriggered_of_post h) ?_
  intro txn L h
  refine ensures_commit ⟨opened_post h, h.sealed⟩ ⟨txn, ?_, h.type, h.reference, h.unspent, ?_, rfl⟩
    (fun e he => untriggered_of_refused he) fun e he _ => he
  · rw [← Frame.working_of_pending L.flushAll rfl, Frame.working_flushAll]
    exact h.posted
  · change L.drawn ++ F.spent = _
    rw [h.drawn]
    rfl

end Post

end ApexPayments.Service
