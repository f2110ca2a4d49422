import ApexPayments.References

/-!
The two adapters behind `PaymentProvider.authorize`: the mock, which decides by the amount, and the
one for Stripe, which asks for a payment intent and maps its status. What Stripe answers is left
open. With either of them it is known what the row of a payment says about the provider.
-/
namespace ApexPayments.Domain.AuthorizationResult

def captured (pspReference : String) : AuthorizationResult := ⟨.captured, some pspReference, none⟩

def pending (pspReference : String) : AuthorizationResult := ⟨.pending, some pspReference, none⟩

def declined (reason : Option String) : AuthorizationResult := ⟨.declined, none, reason⟩

end ApexPayments.Domain.AuthorizationResult

namespace ApexPayments.Providers

open Domain

section Mock

/-- `uuid.uuid4().hex[:12]` of the drawn identifier. -/
def shortHex (u : Uuid) : String := String.ofList ((u.str.toList.filter (· ≠ '-')).take 12)

/-- `MockPspClient.authorize`; `fresh` is the identifier that it draws. -/
def mockAuthorize (fresh : Uuid) (payment : Payment) : AuthorizationResult :=
  if payment.amount = 40001 then .declined (some "Card declined by mock bank")
  else if payment.amount = 40002 then .pending ("mock_async_ref_" ++ shortHex fresh)
  else .captured ("mock_psp_ref_" ++ shortHex fresh)

end Mock

section Stripe

/-- A `stripe.PaymentIntent`. The last error, if there is one, may come without a message. -/
structure PaymentIntent where
  id : String
  status : String
  lastPaymentError : Option (Option String)

/-- The arguments of `stripe.PaymentIntent.create`. -/
structure IntentRequest where
  amount : ℤ
  currency : String
  captureMethod : String
  metadata : List (String × String)
  idempotencyKey : String

/-- What `stripe.PaymentIntent.create` returns or raises, with the `user_message` of the error. -/
inductive StripeAnswer where
  | intent (intent : PaymentIntent)
  | cardError (userMessage : Option String)
  | stripeError (userMessage : Option String)

/-- The request for a payment; `lower` is `str.lower`. -/
def intentRequest (lower : String → String) (payment : Payment) : IntentRequest where
  amount := payment.amount
  currency := lower payment.currency
  captureMethod := "manual"
  metadata := [("payment_id", payment.id.str), ("merchant_id", payment.merchantId),
    ("payer_account", payment.payerAccount.str), ("payee_account", payment.payeeAccount.str)]
  idempotencyKey := payment.id.str

def mapStripeStatus (intent : PaymentIntent) : AuthorizationResult :=
  if intent.status ∈ ["succeeded", "requires_capture"] then .captured intent.id
  else if intent.status ∈ ["requires_action", "requires_confirmation", "processing"] then
    .pending intent.id
  else if intent.status ∈ ["requires_payment_method", "canceled"] then
    .declined (intent.lastPaymentError.getD
      (some ("Payment declined by Stripe (status=" ++ intent.status ++ ")")))
  else .pending intent.id

/-- `StripePaymentProvider.authorize`. A message that is missing is printed as `None`. -/
def stripeAuthorize (stripeApiKey : String) (lower : String → String)
    (create : IntentRequest → StripeAnswer) (fresh : Uuid) (payment : Payment) :
    Except String AuthorizationResult :=
  if stripeApiKey = "" then .ok (.captured ("stripe_mock_" ++ shortHex fresh))
  else match create (intentRequest lower payment) with
    | .intent intent => .ok (mapStripeStatus intent)
    | .cardError userMessage =>
        let reason := userMessage.getD ""
        .ok (.declined (some (if reason = "" then "Card declined" else reason)))
    | .stripeError userMessage => .error ("Stripe gateway error: " ++ userMessage.getD "None")

end Stripe

section Choice

inductive PaymentProvider where
  | stripe
  | mock
  deriving DecidableEq

def getPaymentProvider (lower : String → String) (pspProvider : String) : PaymentProvider :=
  if lower pspProvider = "stripe" then .stripe else .mock

/-- The settings of the provider, `str.lower`, and what Stripe may answer to a request. -/
structure Gateway where
  pspProvider : String
  stripeApiKey : String
  lower : String → String
  answers : IntentRequest → StripeAnswer → Prop

/-- `PaymentProvider.authorize` of the provider that the settings name. -/
def authorize (g : Gateway) (create : IntentRequest → StripeAnswer) (fresh : Uuid) (payment : Payment) :
    Except String AuthorizationResult :=
  match getPaymentProvider g.lower g.pspProvider with
  | .stripe => stripeAuthorize g.stripeApiKey g.lower create fresh payment
  | .mock => .ok (mockAuthorize fresh payment)

/-- What the provider may answer for a payment. -/
def Authorizes (g : Gateway) (payment : Payment) (answer : Except String AuthorizationResult) : Prop :=
  ∃ create fresh, (∀ request, g.answers request (create request)) ∧
    answer = authorize g create fresh payment

/-- Stripe makes an intent for one idempotency key only. -/
def Gateway.Identifies (g : Gateway) : Prop :=
  ∀ request request' intent intent', g.answers request (.intent intent) →
    g.answers request' (.intent intent') → intent.id = intent'.id →
      request.idempotencyKey = request'.idempotencyKey

end Choice

end ApexPayments.Providers

namespace ApexPayments.Service

open Domain Store Ledger Payments Webhooks Providers RowLocking

section Answers

variable {ext : Externals} {g : Gateway} {db : Database} {spent : List Uuid} {σ σ' : State}
  {l : Label backend Call} {p p₀ : Payment} {r : AuthorizationResult}

/-- The provider answers as the adapter that is configured. -/
def ProvidedBy (g : Gateway) (_ : State) : Label backend Call → Prop
  | .run _ o => ∀ payment, Authorizes g payment (o.answer (.authorize payment))
  | _ => True

/-- Every answer so far has come from the adapter. -/
def AllProvided (g : Gateway) (σ : State) : Prop :=
  ∀ pid q payment answer, σ.procs pid = some q →
    .answered (.authorize payment) answer ∈ q.trace → Authorizes g payment answer

theorem allProvided_of_step (h : AllProvided g σ) (hl : σ.step (program ext) l = some σ')
    (hg : ProvidedBy g σ l) : AllProvided g σ' := by
  intro pid q' payment answer hq' hmem
  obtain ⟨act, hs⟩ := System.stepped_of_step hl
  by_cases hpid : pid = l.pid
  · subst hpid
    cases hs with
    | start pid c hnone =>
      obtain rfl := Option.some.inj ((System.procs_set_self ..).symm.trans hq')
      exact absurd hmem List.not_mem_nil
    | call pid o q query next hq =>
      obtain rfl := Option.some.inj ((System.procs_set_self ..).symm.trans hq')
      rcases List.mem_append.mp hmem with hmem | hmem
      · exact h pid q payment answer hq hmem
      · cases List.mem_singleton.mp hmem
        exact hg payment
    | commit pid o q next hq =>
      obtain rfl := Option.some.inj ((System.procs_set_self ..).symm.trans hq')
      rcases List.mem_append.mp hmem with hmem | hmem
      · exact h pid q payment answer hq hmem
      · cases List.mem_singleton.mp hmem
    | cancel pid q hq | deferred pid o q next e hq | refused pid o q e L hq =>
      obtain rfl := Option.some.inj ((System.procs_set_self ..).symm.trans hq')
      refine h pid q payment answer hq ?_
      change _ ∈ q.trace ++ [] at hmem
      rw [List.append_nil] at hmem
      exact hmem
    | advance pid o q prog L issued hq =>
      obtain rfl := Option.some.inj ((System.procs_set_self ..).symm.trans hq')
      exact h pid q payment answer hq hmem
  · rw [hs.procs_of_ne hpid] at hq'
    exact h pid q' payment answer hq' hmem

theorem allProvided_of_run (h : System.Run (program ext) (ProvidedBy g) (System.initial db spent) σ) :
    AllProvided g σ := by
  induction h with
  | refl =>
    intro pid q payment answer hq
    contradiction
  | tail _ hstep ih =>
    obtain ⟨l, hl, hg⟩ := hstep
    exact allProvided_of_step ih hl hg

theorem anyStep_of_run {ok : State → Label backend Call → Prop} {σ₀ : State}
    (h : System.Run (program ext) ok σ₀ σ) : System.Run (program ext) anyStep σ₀ σ :=
  h.mono fun _ _ _ => trivial

/-- A payment is as it was opened, or the adapter has given an answer for it. -/
theorem provided_of_run (hpayments : db.payments.rows = [])
    (h : System.Run (program ext) (ProvidedBy g) (System.initial db spent) σ)
    (hp : p ∈ σ.db.payments.rows) : Opened p p ∨ ∃ create fresh r,
      (∀ request, g.answers request (create request)) ∧ authorize g create fresh p = .ok r ∧
        Justified ext σ r p := by
  cases grounds_of_run hpayments (anyStep_of_run h) p hp with
  | opened hopened => exact Or.inl hopened
  | answered p₀ r hopened hanswered hj =>
    obtain ⟨pid, q, k, req, ws, rest, hq, -, -, htrace⟩ := hanswered
    have hmem : .answered (.authorize p₀) (.ok r) ∈ q.trace := by
      rw [htrace]
      exact List.mem_cons_of_mem _ (List.mem_cons_self ..)
    obtain ⟨create, fresh, hcreate, hanswer⟩ := allProvided_of_run h pid q p₀ (.ok r) hq hmem
    refine Or.inr ⟨create, fresh, r, hcreate, ?_, hj⟩
    rw [hanswer, hopened]
    rfl

end Answers

section Rows

variable {ext : Externals} {g : Gateway} {db : Database} {spent : List Uuid} {σ : State}
  {p : Payment} {reference : String} {reason : Option String}

/-- The payment has succeeded at once. -/
def CapturedAs (reference : String) (p : Payment) : Prop :=
  p.pspReference = some reference ∧ (p.status = .succeeded ∨ p.status = .refunded)

/-- The payment has failed at once. -/
def Declined (p : Payment) : Prop := p.pspReference = none ∧ p.status = .failed

/-- The payment waits for a webhook, or a webhook or an expiry has decided it. -/
def PendingAs (ext : Externals) (σ : State) (reference : String) (p : Payment) : Prop :=
  p.pspReference = some reference ∧ (p.status = .authorized ∨
    (p.status = .succeeded ∨ p.status = .refunded) ∧ Reported ext σ reference .capture ∨
    p.status = .failed ∧ (Reported ext σ reference .failure ∨ HasExpired σ))

theorem Justified.of_captured (h : Justified ext σ (.captured reference) p) :
    CapturedAs reference p := by
  cases h with
  | captured hout hst href => exact ⟨href, hst⟩
  | declined hout | pending hout | capturedLater _ hout | failedLater _ hout | expired hout =>
    contradiction

theorem Justified.of_declined (h : Justified ext σ (.declined reason) p) : Declined p := by
  cases h with
  | declined hout hst href => exact ⟨href, hst⟩
  | captured hout | pending hout | capturedLater _ hout | failedLater _ hout | expired hout =>
    contradiction

theorem Justified.of_pending (h : Justified ext σ (.pending reference) p) :
    PendingAs ext σ reference p := by
  cases h with
  | pending hout hst href => exact ⟨href, Or.inl hst⟩
  | capturedLater reference' hout hreported hst href hr =>
    obtain rfl := Option.some.inj hr
    exact ⟨href, Or.inr (Or.inl ⟨hst, hreported⟩)⟩
  | failedLater reference' hout hreported hst href hr =>
    obtain rfl := Option.some.inj hr
    exact ⟨href, Or.inr (Or.inr ⟨hst, Or.inl hreported⟩)⟩
  | expired hout hexpired hst href => exact ⟨href, Or.inr (Or.inr ⟨hst, Or.inr hexpired⟩)⟩
  | captured hout | declined hout => contradiction

/-- What an answer of Stripe says about the row of the payment. -/
inductive Mirrors (ext : Externals) (σ : State) (p : Payment) : StripeAnswer → Prop
  | captured (intent : PaymentIntent) (hstatus : intent.status ∈ ["succeeded", "requires_capture"])
      (hp : CapturedAs intent.id p) : Mirrors ext σ p (.intent intent)
  | canceled (intent : PaymentIntent) (hstatus : intent.status ∈ ["requires_payment_method", "canceled"])
      (hp : Declined p) : Mirrors ext σ p (.intent intent)
  | pending (intent : PaymentIntent) (hstatus : intent.status ∉
        ["succeeded", "requires_capture", "requires_payment_method", "canceled"])
      (hp : PendingAs ext σ intent.id p) : Mirrors ext σ p (.intent intent)
  | declined (userMessage : Option String) (hp : Declined p) : Mirrors ext σ p (.cardError userMessage)

theorem mirrors_of_mapped {intent : PaymentIntent} (h : Justified ext σ (mapStripeStatus intent) p) :
    Mirrors ext σ p (.intent intent) := by
  unfold mapStripeStatus at h
  by_cases hcaptured : intent.status ∈ ["succeeded", "requires_capture"]
  · rw [if_pos hcaptured] at h
    exact .captured intent hcaptured h.of_captured
  · rw [if_neg hcaptured] at h
    by_cases hdeclined : intent.status ∈ ["requires_payment_method", "canceled"]
    · have hpending : intent.status ∉ ["requires_action", "requires_confirmation", "processing"] := by
        rcases List.mem_pair.mp hdeclined with hst | hst <;> rw [hst] <;> decide
      rw [if_neg hpending, if_pos hdeclined] at h
      exact .canceled intent hdeclined h.of_declined
    · rw [if_neg hdeclined, ite_self] at h
      refine .pending intent ?_ h.of_pending
      simp only [List.mem_cons, List.not_mem_nil, or_false, not_or] at hcaptured hdeclined ⊢
      exact ⟨hcaptured.1, hcaptured.2, hdeclined.1, hdeclined.2⟩

theorem mirrors_of_run (hstripe : getPaymentProvider g.lower g.pspProvider = .stripe)
    (hkey : g.stripeApiKey ≠ "") (hpayments : db.payments.rows = [])
    (h : System.Run (program ext) (ProvidedBy g) (System.initial db spent) σ)
    (hp : p ∈ σ.db.payments.rows) : Opened p p ∨
      ∃ answer, g.answers (intentRequest g.lower p) answer ∧ Mirrors ext σ p answer := by
  rcases provided_of_run hpayments h hp with hopened | ⟨create, fresh, r, hcreate, hr, hj⟩
  · exact Or.inl hopened
  · refine Or.inr ⟨create (intentRequest g.lower p), hcreate _, ?_⟩
    unfold authorize at hr
    rw [hstripe] at hr
    dsimp only at hr
    rw [stripeAuthorize, if_neg hkey] at hr
    cases hanswer : create (intentRequest g.lower p) with
    | intent intent =>
      rw [hanswer] at hr
      obtain rfl := Except.ok.inj hr
      exact mirrors_of_mapped hj
    | cardError userMessage =>
      rw [hanswer] at hr
      obtain rfl := Except.ok.inj hr
      exact .declined userMessage hj.of_declined
    | stripeError userMessage =>
      rw [hanswer] at hr
      contradiction

end Rows

section Stripe

variable {ext : Externals} {g : Gateway} {db : Database} {spent : List Uuid} {σ : State}
  {p p' : Payment} {reference : String}

/-- An answer that gives the payment a reference is an intent with this id. -/
theorem Mirrors.intent {answer : StripeAnswer} (h : Mirrors ext σ p answer)
    (href : p.pspReference = some reference) : ∃ intent, answer = .intent intent ∧ intent.id = reference := by
  cases h with
  | captured intent _ hp | pending intent _ hp =>
    exact ⟨intent, rfl, Option.some.inj (hp.1.symm.trans href)⟩
  | canceled _ _ hp | declined _ hp =>
    rw [hp.1] at href
    contradiction

theorem not_opened (href : p.pspReference = some reference) : ¬ Opened p p := by
  intro hopened
  have hnone : p.pspReference = none := congrArg Payment.pspReference hopened
  rw [href] at hnone
  contradiction

/-- Two payments with the same reference are the same payment. -/
theorem eq_of_reference (hstripe : getPaymentProvider g.lower g.pspProvider = .stripe)
    (hkey : g.stripeApiKey ≠ "") (hids : g.Identifies) (hpayments : db.payments.rows = [])
    (h : System.Run (program ext) (ProvidedBy g) (System.initial db spent) σ)
    (hp : p ∈ σ.db.payments.rows) (hp' : p' ∈ σ.db.payments.rows)
    (href : p.pspReference = some reference) (href' : p'.pspReference = some reference) : p = p' := by
  have hintent : ∀ {q : Payment}, q ∈ σ.db.payments.rows → q.pspReference = some reference →
      ∃ intent, g.answers (intentRequest g.lower q) (.intent intent) ∧ intent.id = reference := by
    intro q hq hqref
    obtain ⟨answer, hanswer, hmirrors⟩ :=
      (mirrors_of_run hstripe hkey hpayments h hq).resolve_left (not_opened hqref)
    obtain ⟨intent, rfl, hid⟩ := hmirrors.intent hqref
    exact ⟨intent, hanswer, hid⟩
  obtain ⟨intent, hanswer, hid⟩ := hintent hp href
  obtain ⟨intent', hanswer', hid'⟩ := hintent hp' href'
  have hsame := hids _ _ intent intent' hanswer hanswer' (hid.trans hid'.symm)
  exact eq_of_id hp hp' (Uuid.str_injective hsame)

/-- One intent for each idempotency key, which is left to be captured. -/
def sampleCreate (request : IntentRequest) : StripeAnswer :=
  .intent ⟨"pi_" ++ request.idempotencyKey, "requires_capture", none⟩

def sampleGateway (pspProvider : String) : Gateway where
  pspProvider := pspProvider
  stripeApiKey := "key"
  lower s := String.ofList (s.toList.map Char.toLower)
  answers request answer := answer = sampleCreate request

theorem identifies_sampleGateway (pspProvider : String) : (sampleGateway pspProvider).Identifies := by
  intro request request' intent intent' hanswer hanswer' hid
  cases hanswer
  cases hanswer'
  exact (String.append_right_inj "pi_").mp hid

/-- `n` statements of process `pid`, with the identifiers from `first` on and that provider. -/
def providedSteps (pspProvider : String) (pid first n : ℕ) : List (Label backend Call) :=
  (List.range n).map fun i => .run pid
    { ident := first + i
      answer := fun
        | .now => (0 : Time)
        | .scan ids => ⟨ids, List.Perm.refl ids⟩
        | .authorize payment => authorize (sampleGateway pspProvider) sampleCreate 0 payment }

theorem provided_providedSteps {pspProvider : String} {pid first n : ℕ} {l : Label backend Call}
    (hl : l ∈ providedSteps pspProvider pid first n) (σ : State) :
    ProvidedBy (sampleGateway pspProvider) σ l := by
  obtain ⟨i, -, rfl⟩ := List.mem_map.mp hl
  exact fun payment => ⟨sampleCreate, 0, fun _ => rfl, rfl⟩

end Stripe

section Unasked

variable {ext : Externals} {g : Gateway} {db : Database} {spent : List Uuid} {σ : State} {p : Payment}

theorem Justified.of_mock {fresh : Uuid} (h : Justified ext σ (mockAuthorize fresh p) p) :
    p.amount = 40001 ∧ Declined p ∨
    p.amount = 40002 ∧ PendingAs ext σ ("mock_async_ref_" ++ shortHex fresh) p ∨
    p.amount ≠ 40001 ∧ p.amount ≠ 40002 ∧ CapturedAs ("mock_psp_ref_" ++ shortHex fresh) p := by
  unfold mockAuthorize at h
  by_cases hdeclined : p.amount = 40001
  · rw [if_pos hdeclined] at h
    exact Or.inl ⟨hdeclined, h.of_declined⟩
  · rw [if_neg hdeclined] at h
    by_cases hpending : p.amount = 40002
    · rw [if_pos hpending] at h
      exact Or.inr (Or.inl ⟨hpending, h.of_pending⟩)
    · rw [if_neg hpending] at h
      exact Or.inr (Or.inr ⟨hdeclined, hpending, h.of_captured⟩)

/-- Where nobody is asked, the mock decides by the amount alone, and Stripe without a key lets
every payment succeed: none of them is ever authorized or failed. -/
theorem payments_unasked (hpayments : db.payments.rows = [])
    (h : System.Run (program ext) (ProvidedBy g) (System.initial db spent) σ) :
    (getPaymentProvider g.lower g.pspProvider = .mock → ∀ p ∈ σ.db.payments.rows, Opened p p ∨
      ∃ fresh, p.amount = 40001 ∧ Declined p ∨
        p.amount = 40002 ∧ PendingAs ext σ ("mock_async_ref_" ++ shortHex fresh) p ∨
        p.amount ≠ 40001 ∧ p.amount ≠ 40002 ∧ CapturedAs ("mock_psp_ref_" ++ shortHex fresh) p) ∧
    (getPaymentProvider g.lower g.pspProvider = .stripe → g.stripeApiKey = "" →
      ∀ p ∈ σ.db.payments.rows, Opened p p ∨ ∃ fresh, CapturedAs ("stripe_mock_" ++ shortHex fresh) p) := by
  constructor
  · intro hmock p hp
    rcases provided_of_run hpayments h hp with hopened | ⟨create, fresh, r, -, hr, hj⟩
    · exact Or.inl hopened
    · unfold authorize at hr
      rw [hmock] at hr
      obtain rfl := Except.ok.inj hr
      exact Or.inr ⟨fresh, hj.of_mock⟩
  · intro hstripe hkey p hp
    rcases provided_of_run hpayments h hp with hopened | ⟨create, fresh, r, -, hr, hj⟩
    · exact Or.inl hopened
    · unfold authorize at hr
      rw [hstripe] at hr
      dsimp only at hr
      rw [stripeAuthorize, if_pos hkey] at hr
      obtain rfl := Except.ok.inj hr
      exact Or.inr ⟨fresh, hj.of_captured⟩

/-- A payment of 50 with the mock. -/
theorem payments_unasked_sample :
    ∃ σ, System.Run (program sampleExternals) (ProvidedBy (sampleGateway "mock"))
        (System.initial sampleDatabase []) σ ∧
      σ.db.payments.rows.map (fun p => (p.status, p.pspReference)) =
        [(.succeeded, some "mock_psp_ref_000000000000")] ∧
      ∀ p ∈ σ.db.payments.rows, Opened p p ∨
        ∃ fresh, p.amount = 40001 ∧ Declined p ∨
          p.amount = 40002 ∧ PendingAs sampleExternals σ ("mock_async_ref_" ++ shortHex fresh) p ∨
          p.amount ≠ 40001 ∧ p.amount ≠ 40002 ∧
            CapturedAs ("mock_psp_ref_" ++ shortHex fresh) p := by
  obtain ⟨σ, hrun, hrows⟩ : ∃ σ, System.Run (program sampleExternals) (ProvidedBy (sampleGateway "mock"))
      (System.initial sampleDatabase []) σ ∧
      σ.db.payments.rows.map (fun p => (p.status, p.pspReference)) =
        [(.succeeded, some "mock_psp_ref_000000000000")] := by
    refine System.exists_run_of_exec (.start 0 (.create "key" (sampleRequest 3)) ::
      providedSteps "mock" 0 10 68) ?_ ?_
    · decide +kernel
    · intro l hl σ
      rcases List.mem_cons.mp hl with rfl | hl
      · trivial
      · exact provided_providedSteps hl σ
  exact ⟨σ, hrun, hrows, (payments_unasked rfl hrun).1 (by decide)⟩

end Unasked

end ApexPayments.Service
