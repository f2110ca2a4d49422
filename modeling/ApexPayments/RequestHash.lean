import ApexPayments.JsonText
import ApexPayments.RefundOnce

/-!
The hash of a request. `compute_hash` writes a payload as a JSON text with sorted keys and hashes
the text, so that two payloads have one hash only if they are the same or their texts collide.
Then a key answers one request only.
-/
namespace ApexPayments.Service

open Domain Store Ledger Payments Webhooks RowLocking JsonText

section Hash

variable {sha256 : String → String}

/-- The dictionary that the caller of `claim_or_replay` passes. -/
def payloadDict : Payload → Value
  | .create request => .obj
      [("merchantId", .str request.merchantId), ("payerAccountId", .str request.payerAccountId.str),
       ("payeeAccountId", .str request.payeeAccountId.str), ("amount", .int request.amount),
       ("currency", .str request.currency)]
  | .refund paymentId amount => .obj [("payment_id", .str paymentId.str), ("amount", .int amount)]

/-- `IdempotencyService.compute_hash`; `sha256` is the hexadecimal digest of a text in UTF-8. -/
def computeHash (sha256 : String → String) (payload : Value) : String := sha256 (dumps payload)

/-- Two texts that are told apart by the serialization, but not by the hash. -/
def Collides (sha256 : String → String) (d d' : Value) : Prop :=
  dumps d ≠ dumps d' ∧ sha256 (dumps d) = sha256 (dumps d')

theorem distinct_payloadDict (p : Payload) : Distinct (payloadDict p) := by
  cases p with
  | create request => simp [payloadDict, Distinct, DistinctMembers]
  | refund paymentId amount => simp [payloadDict, Distinct, DistinctMembers]

theorem payloadDict_injective {p q : Payload} (h : Same (payloadDict p) (payloadDict q)) : p = q := by
  cases p with
  | create request =>
    cases q with
    | create request' =>
      simp [payloadDict, Same, SameMembers, List.lookup_cons] at h
      obtain ⟨hmerchant, hpayer, hpayee, hamount, hcurrency⟩ := h
      have hpayer' := Uuid.str_injective hpayer
      have hpayee' := Uuid.str_injective hpayee
      obtain ⟨merchantId, payer, payee, amount, currency, _, _, _⟩ := request
      obtain ⟨merchantId', payer', payee', amount', currency', _, _, _⟩ := request'
      dsimp only at *
      subst hmerchant hpayer' hpayee' hamount hcurrency
      rfl
    | refund id' amount' => simp [payloadDict, Same] at h
  | refund id amount =>
    cases q with
    | create request' => simp [payloadDict, Same] at h
    | refund id' amount' =>
      simp [payloadDict, Same, SameMembers, List.lookup_cons] at h
      rw [Uuid.str_injective h.1, h.2]

theorem computeHash_eq_iff {d d' : Value} (hd : Distinct d) (hd' : Distinct d') :
    computeHash sha256 d = computeHash sha256 d' ↔ Same d d' ∨ Collides sha256 d d' := by
  unfold computeHash Collides
  rw [← dumps_eq_iff hd hd']
  constructor
  · intro h
    by_cases heq : dumps d = dumps d'
    · exact Or.inl heq
    · exact Or.inr ⟨heq, h⟩
  · intro h
    rcases h with heq | ⟨-, heq⟩
    · exact congrArg sha256 heq
    · exact heq

theorem same_payloadDict_iff {p q : Payload} : Same (payloadDict p) (payloadDict q) ↔ p = q := by
  constructor
  · exact payloadDict_injective
  · intro h
    rw [h, same_iff _ _ (distinct_payloadDict q) (distinct_payloadDict q)]

/-- The hash of a dictionary does not depend on the order of its keys, at any depth. Two of them
with one hash are the same or give a collision, and so do two requests with one hash. -/
theorem request_hash_identifies (sha256 : String → String) :
    (∀ d d', Distinct d → Distinct d' →
      (computeHash sha256 d = computeHash sha256 d' ↔ Same d d' ∨ Collides sha256 d d')) ∧
    ∀ p q : Payload, computeHash sha256 (payloadDict p) = computeHash sha256 (payloadDict q) ↔
      p = q ∨ Collides sha256 (payloadDict p) (payloadDict q) := by
  refine ⟨fun d d' hd hd' => computeHash_eq_iff hd hd', fun p q => ?_⟩
  rw [computeHash_eq_iff (distinct_payloadDict p) (distinct_payloadDict q), same_payloadDict_iff]

/-- The keys of a refund in the other order, with the text itself as its hash. -/
theorem request_hash_identifies_sample :
    computeHash id (.obj [("amount", .int 20), ("payment_id", .str (Uuid.str 10))]) =
        computeHash id (payloadDict (.refund 10 20)) ∧
      computeHash id (payloadDict (.refund 10 21)) ≠ computeHash id (payloadDict (.refund 10 20)) := by
  obtain ⟨hdicts, hpayloads⟩ := request_hash_identifies id
  constructor
  · refine (hdicts _ _ ?_ (distinct_payloadDict _)).mpr (Or.inl ?_)
    · simp [Distinct, DistinctMembers]
    · simp [payloadDict, Same, SameMembers, List.lookup_cons]
  · intro h
    rcases (hpayloads _ _).mp h with heq | ⟨hne, heq⟩
    · simp at heq
    · exact hne heq

end Hash

section Keys

variable {ext : Externals} {db s : Database} {spent : List Uuid} {σ : State} {c c' : Call}
  {key : String × String} {payload payload' : Payload} {v : Reply} {sha256 : String → String}

/-- The surroundings with the hash of the code. -/
def hashing (sha256 : String → String) (ext : Externals) : Externals :=
  { ext with hash := fun p => computeHash sha256 (payloadDict p) }

theorem record_of_stored (hc : c.claim? = some (key, payload)) (h : c.stored ext s = .ok v) :
    ∃ r, s.idempotencyKeys.find? key = some r ∧ r.requestHash = ext.hash payload ∧
      r.status = .completed := by
  cases c with
  | create k req | refund k id req =>
    cases hc
    obtain ⟨r, hr, hhash, hst, -⟩ := storedReply_ok_iff.mp h
    exact ⟨r, hr, hhash, hst⟩
  | _ => contradiction

/-- A call is known by its key and its payload. -/
theorem eq_of_claim (hc : c.claim? = some (key, payload)) (hc' : c'.claim? = some (key, payload)) :
    c' = c := by
  cases c with
  | create k req =>
    cases hc
    cases c' with
    | create k' req' =>
      obtain ⟨hkey, hpayload⟩ := Prod.mk.inj (Option.some.inj hc')
      rw [(Prod.mk.inj hkey).2, Payload.create.inj hpayload]
    | refund k' id' req' => exact absurd (Option.some.inj hc') (by simp)
    | _ => contradiction
  | refund k id req =>
    cases hc
    cases c' with
    | refund k' id' req' =>
      obtain ⟨hkey, hpayload⟩ := Prod.mk.inj (Option.some.inj hc')
      obtain ⟨hid, hamount⟩ := Payload.refund.inj hpayload
      have hreq : req' = req := by
        cases req
        cases req'
        cases hamount
        rfl
      rw [(Prod.mk.inj hkey).2, hid, hreq]
    | create k' req' => exact absurd (Option.some.inj hc') (by simp)
    | _ => contradiction
  | _ => contradiction

theorem stored_of_other {r : IdempotencyRecord} (hc : c.claim? = some (key, payload))
    (hr : s.idempotencyKeys.find? key = some r) (hhash : r.requestHash ≠ ext.hash payload) :
    c.stored ext s = .error (.idempotencyMismatch key.2) := by
  cases c with
  | create k req | refund k id req =>
    cases hc
    unfold Call.stored storedReply
    dsimp only
    rw [hr]
    exact if_pos hhash
  | _ => contradiction

/-- A call that has returned under a key finds its answer in the store. -/
theorem stored_of_returned (h : System.Run (program ext) anyStep (System.initial db spent) σ)
    {pid : ℕ} {p : Process backend Call Reply} (hp : σ.procs pid = some p)
    (hc : p.call.claim? = some (key, payload)) (hv : p.prog = .pure v) :
    p.call.stored ext σ.db = .ok v := by
  have hk := refundsKnown_of_run h
  cases hcall : p.call with
  | refund k id req => exact hk.replied pid p k id req v hp hcall hv
  | create k req =>
    have hstarts := starts_of_run h
    have hrunning₀ : Running ext (fun _ => True) anyKey (System.initial db spent) :=
      running_initial db spent
    obtain ⟨-, hreach⟩ := reach_of_service (fun _ _ h => h)
      (fun _ _ _ _ => startsAct_of_stepped) skipsOnly_anyKey hrunning₀ hstarts
    have hstored := stored_of_reach hrunning₀.owned (fun _ _ _ _ _ hp => by contradiction) hreach pid
      p.toHeader k req v (System.toAtomic_heads hp) hcall (base_of_pure hk.running hp hv)
    obtain ⟨r, resp, hr, hst, hhash, hbody, rfl⟩ := hstored
    refine storedReply_ok_iff.mpr ⟨r, hr, hhash, hst, ?_⟩
    rw [hbody]
    rfl
  | _ =>
    rw [hcall] at hc
    contradiction

end Keys

end ApexPayments.Service
