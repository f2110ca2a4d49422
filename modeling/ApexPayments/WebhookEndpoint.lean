import ApexPayments.WebhookTransaction

/-!
The webhook endpoint from the bytes of a request on: the decoding of the body, the choice
of the signature header, and what happens to a request that nobody has signed.
-/
namespace ApexPayments.Service

open Domain Store Ledger Payments Webhooks RowLocking

section Endpoint

/-- `raw_body_bytes.decode("utf-8")`. -/
def decodeBody (body : ByteArray) : Except Exn String :=
  match String.fromUTF8? body with
  | some rawBody => .ok rawBody
  | none => .error .unicodeDecodeError

/-- `header or default`. -/
def headerOr (header : Option String) (default : String) : String :=
  match header with
  | some value => if value = "" then default else value
  | none => default

/-- `stripe_signature or x_psp_signature or ""`. -/
def selectSignature (xPspSignature stripeSignature : Option String) : String :=
  headerOr stripeSignature (headerOr xPspSignature "")

def handleWebhook (ext : Externals) (body : ByteArray)
    (xPspSignature stripeSignature : Option String) : Program Reply := do
  let rawBody ← ofExcept (decodeBody body)
  program ext (.webhook rawBody (selectSignature xPspSignature stripeSignature))

end Endpoint

section Refusal

variable {ext : Externals} {body : ByteArray} {rawBody signature : String}
  {xPspSignature stripeSignature : Option String}

/-- The call raises `e` before its first statement, whatever runs beside it. -/
def RaisesAtOnce {α : Type} (p : Program α) (e : Exn) : Prop :=
  ∀ F o, p.Runs F (.fresh backend) o ↔ o = .raised e (.fresh backend)

/-- Neither of the two verifications accepts the signature. -/
structure Unsigned (ext : Externals) (body : ByteArray) (signature : String) : Prop where
  hmac : ∀ rawBody, decodeBody body = .ok rawBody →
    webhookSignatureIsValid ext rawBody signature ≠ .ok true
  stripe : ∀ rawBody, decodeBody body = .ok rawBody →
    stripeSignatureIsValid ext rawBody signature = false

def Ascii (s : String) : Prop := s.toList.all (·.toNat < 128) = true

instance (s : String) : Decidable (Ascii s) :=
  inferInstanceAs (Decidable (s.toList.all (·.toNat < 128) = true))

theorem raisesAtOnce_iff {e e' : Exn} {α : Type} {p : Program α} (hp : p = raise e) :
    RaisesAtOnce p e' ↔ e = e' := by
  subst hp
  constructor
  · intro h
    have hraised := (h (.alone sampleDatabase []) (.raised e (.fresh backend))).mp rfl
    cases hraised
    rfl
  · intro he F o
    subst he
    exact Iff.rfl

theorem decodeBody_ok_iff : decodeBody body = .ok rawBody ↔ rawBody.toByteArray = body := by
  unfold decodeBody String.fromUTF8?
  constructor
  · intro h
    by_cases hvalid : body.IsValidUTF8
    · rw [dif_pos hvalid] at h
      cases h
      rfl
    · rw [dif_neg hvalid] at h
      contradiction
  · intro h
    subst h
    rw [dif_pos rawBody.isValidUTF8]
    rfl

theorem decodeBody_error (hbody : ¬ body.IsValidUTF8) :
    decodeBody body = .error .unicodeDecodeError := by
  unfold decodeBody String.fromUTF8?
  rw [dif_neg hbody]

/-- The comparison fails on a signature that is not ASCII, if it is made at all. -/
theorem signatureIsValid_unsigned (hhmac : webhookSignatureIsValid ext rawBody signature ≠ .ok true)
    (hstripe : stripeSignatureIsValid ext rawBody signature = false) (hsig : signature ≠ "") :
    signatureIsValid ext rawBody signature =
      if rawBody = "" ∨ ext.pspWebhookSecret = "" ∨ Ascii signature then .ok false
      else .error .typeError := by
  unfold signatureIsValid
  rw [hstripe]
  have hcompare : webhookSignatureIsValid ext rawBody signature =
      if rawBody = "" ∨ ext.pspWebhookSecret = "" ∨ Ascii signature then .ok false
      else .error .typeError := by
    unfold webhookSignatureIsValid Ascii at *
    by_cases hempty : rawBody = ""
    · simp [hempty]
    · by_cases hsecret : ext.pspWebhookSecret = ""
      · simp [hempty, hsig, hsecret]
      · by_cases hascii : signature.toList.all (·.toNat < 128) = true
        · simp only [hempty, hsig, hsecret, hascii, or_false, or_true, if_true, if_false] at hhmac ⊢
          simpa using hhmac
        · simp [hempty, hsig, hsecret, hascii]
  rw [hcompare]
  by_cases hrefused : rawBody = "" ∨ ext.pspWebhookSecret = "" ∨ Ascii signature
  · rw [if_pos hrefused]
    rfl
  · rw [if_neg hrefused]
    rfl

/-- What an unsigned request ends in. -/
theorem handleWebhook_unsigned
    (h : Unsigned ext body (selectSignature xPspSignature stripeSignature)) :
    ∃ e, handleWebhook ext body xPspSignature stripeSignature = raise e ∧
      (e = .invalidSignature ↔ body.IsValidUTF8 ∧ (body.size = 0 ∨ ext.pspWebhookSecret = "" ∨
        Ascii (selectSignature xPspSignature stripeSignature))) := by
  unfold handleWebhook
  generalize selectSignature xPspSignature stripeSignature = signature at h ⊢
  by_cases hvalid : body.IsValidUTF8
  · obtain ⟨rawBody, hdecode⟩ : ∃ rawBody, decodeBody body = .ok rawBody :=
      ⟨String.fromUTF8 body hvalid, decodeBody_ok_iff.mpr rfl⟩
    have hempty : body.size = 0 ↔ rawBody = "" := by
      rw [← decodeBody_ok_iff.mp hdecode, ByteArray.size_eq_zero_iff]
      exact String.toByteArray_inj (t := "")
    rw [hdecode]
    by_cases hsig : signature = ""
    · refine ⟨.invalidSignature, ?_, ?_⟩
      · subst hsig
        rfl
      · subst hsig
        simp [hvalid, Ascii]
    · have hverify := signatureIsValid_unsigned (h.hmac rawBody hdecode) (h.stripe rawBody hdecode) hsig
      rw [hempty]
      by_cases hrefused : rawBody = "" ∨ ext.pspWebhookSecret = "" ∨ Ascii signature
      · rw [if_pos hrefused] at hverify
        refine ⟨.invalidSignature, ?_, by simp [hvalid, hrefused]⟩
        change (handle ext rawBody signature >>= _) = _
        unfold handle
        rw [if_neg hsig, hverify]
        rfl
      · rw [if_neg hrefused] at hverify
        refine ⟨.typeError, ?_, by simp [hrefused]⟩
        change (handle ext rawBody signature >>= _) = _
        unfold handle
        rw [if_neg hsig, hverify]
        rfl
  · refine ⟨.unicodeDecodeError, ?_, by simp [hvalid]⟩
    rw [decodeBody_error hvalid]
    rfl

/-- An unsigned request changes nothing. It is refused as unsigned exactly when its body is
UTF-8 and its signature is ASCII, or nothing is compared with it. -/
theorem unsigned_refused_iff
    (h : Unsigned ext body (selectSignature xPspSignature stripeSignature)) :
    (∃ e, RaisesAtOnce (handleWebhook ext body xPspSignature stripeSignature) e) ∧
    (RaisesAtOnce (handleWebhook ext body xPspSignature stripeSignature) .invalidSignature ↔
      body.IsValidUTF8 ∧ (body.size = 0 ∨ ext.pspWebhookSecret = "" ∨
        Ascii (selectSignature xPspSignature stripeSignature))) := by
  obtain ⟨e, hraise, hiff⟩ := handleWebhook_unsigned h
  refine ⟨⟨e, (raisesAtOnce_iff hraise).mpr rfl⟩, ?_⟩
  rw [raisesAtOnce_iff hraise]
  exact hiff

end Refusal

section Sample

/-- The sample service accepts only the signature `sig`. -/
theorem unsigned_sample {body : ByteArray} {signature : String} (h : signature ≠ "sig") :
    Unsigned sampleExternals body signature where
  hmac := by
    intro rawBody _ hvalid
    unfold webhookSignatureIsValid at hvalid
    split at hvalid
    · contradiction
    · split at hvalid
      · contradiction
      · split at hvalid
        · have hsame : "sig" = signature := of_decide_eq_true (Except.ok.inj hvalid)
          exact h hsame.symm
        · contradiction
  stripe := by
    intro rawBody _
    unfold stripeSignatureIsValid
    split
    · rfl
    · rfl

theorem unsigned_refused_iff_sample :
    RaisesAtOnce (handleWebhook sampleExternals "\x7b\x7d".toByteArray (some "forged") none)
      .invalidSignature :=
  (unsigned_refused_iff (unsigned_sample (by decide))).2.mpr
    ⟨String.isValidUTF8 _, Or.inr (Or.inr (by decide))⟩

/-- A signature of one Latin-1 letter ends in a `TypeError`. -/
theorem unsigned_latin1_not_refused :
    ¬ ∀ (ext : Externals) (body : ByteArray) (xPspSignature stripeSignature : Option String),
      Unsigned ext body (selectSignature xPspSignature stripeSignature) →
      RaisesAtOnce (handleWebhook ext body xPspSignature stripeSignature) .invalidSignature := by
  intro hall
  have hsig : Unsigned sampleExternals "\x7b\x7d".toByteArray (selectSignature (some "é") none) :=
    unsigned_sample (by decide)
  have hcond := (unsigned_refused_iff hsig).2.mp (hall _ _ _ _ hsig)
  rcases hcond.2 with hempty | hsecret | hascii
  · exact absurd hempty (by decide)
  · exact absurd hsecret (by decide)
  · exact absurd hascii (by decide)

end Sample

end ApexPayments.Service
