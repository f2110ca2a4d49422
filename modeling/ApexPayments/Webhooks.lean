import ApexPayments.Payments

/-!
`WebhookService.handle`: signature checks, the decoding of Stripe and generic
events as Python evaluates it on any JSON value, the deduplication of event ids
and the transition of a waiting payment.
-/
namespace ApexPayments.Webhooks

open Domain Store Ledger Payments RowLocking

section Signatures

/-- `hmac.compare_digest` refuses strings that are not ASCII. -/
def webhookSignatureIsValid (ext : Externals) (rawPayload signatureHeader : String) :
    Except Exn Bool :=
  if rawPayload = "" ∨ signatureHeader = "" then .ok false
  else if ext.pspWebhookSecret = "" then .ok false
  else if signatureHeader.toList.all (·.toNat < 128) then
    .ok (ext.hmacSha256 ext.pspWebhookSecret rawPayload = signatureHeader)
  else .error .typeError

def stripeSignatureIsValid (ext : Externals) (rawPayload signatureHeader : String) : Bool :=
  if rawPayload = "" ∨ signatureHeader = "" then false
  else if ext.stripeWebhookSecret = "" then false
  else ext.constructEvent rawPayload signatureHeader ext.stripeWebhookSecret

def signatureIsValid (ext : Externals) (rawPayload signatureHeader : String) :
    Except Exn Bool := do
  if ← webhookSignatureIsValid ext rawPayload signatureHeader then pure true
  else pure (stripeSignatureIsValid ext rawPayload signatureHeader)

end Signatures

section Decoding

/-- `key in value`. -/
def contains : Json → String → Except Exn Bool
  | .obj fields, key => .ok (fields.any (·.1 = key))
  | .arr xs, key => .ok (xs.any fun
      | .str s => s = key
      | _ => false)
  | .str s, key => .ok (key.toList <:+: s.toList)
  | _, _ => .error .typeError

/-- `value[key]`. -/
def subscript : Json → String → Except Exn Json
  | .obj fields, key =>
      match fields.lookup key with
      | some v => .ok v
      | none => .error (.keyError key)
  | _, _ => .error .typeError

/-- `value.get(key)`, where an absent key is `none` and a null is `some .null`. -/
def getField : Json → String → Except Exn (Option Json)
  | .obj fields, key => .ok (fields.lookup key)
  | _, _ => .error (.attributeError "get")

/-- Python's truth of a value; both floating-point zeros are false. -/
def truthy : Json → Bool
  | .null => false
  | .bool b => b
  | .int i => i ≠ 0
  | .float bits => bits ≠ 0#64 ∧ bits ≠ 0x8000000000000000#64
  | .str s => s ≠ ""
  | .arr xs => !xs.isEmpty
  | .obj fields => !fields.isEmpty

/-- What the service takes from the body of a webhook. -/
structure Event where
  eventId : Json
  eventType : Json
  pspReference : Json

def isStripeFormat (data : Json) : Except Exn Bool := do
  if ← contains data "data" then contains (← subscript data "data") "object"
  else pure false

/-- The event in a body; `fresh` is the `str(uuid.uuid4())` of the default id. -/
def parseEvent (fresh : String) (data : Json) : Except Exn Event := do
  if ← isStripeFormat data then
    let eventId := (← getField data "id").getD (.str fresh)
    let eventType := (← getField data "type").getD (.str "")
    let object ← subscript (← subscript data "data") "object"
    pure ⟨eventId, eventType, (← getField object "id").getD (.str "")⟩
  else
    let eventId := (← getField data "pspEventId").getD
      ((← getField data "eventId").getD (.str fresh))
    let eventType := (← getField data "type").getD
      ((← getField data "eventType").getD (.str ""))
    pure ⟨eventId, eventType, (← getField data "pspReference").getD (.str "")⟩

def captureEvents : List String :=
  ["payment.captured", "payment_intent.succeeded",
    "payment_intent.amount_capturable_updated", "charge.captured"]

def failEvents : List String :=
  ["payment.failed", "payment_intent.payment_failed", "payment_intent.canceled"]

inductive EventKind where
  | capture
  | failure
  deriving DecidableEq

/-- The set the event type is in. A list or a dictionary is not hashable. -/
def kindOf : Json → Except Exn (Option EventKind)
  | .str s =>
      if s ∈ captureEvents then .ok (some .capture)
      else if s ∈ failEvents then .ok (some .failure)
      else .ok none
  | .arr _ => .error .typeError
  | .obj _ => .error .typeError
  | _ => .ok none

end Decoding

section Handling

/-- A query parameter for a string column. -/
def textParameter (column : String) : Json → Except Exn String
  | .str s => if Char.ofNat 0 ∈ s.toList then .error (.dataError column) else .ok s
  | _ => .error (.dataError column)

/-- The event id as the dedup query and the insert take it. A null id finds no row
and is then refused by the primary key. -/
def eventKey : Json → Except Exn String
  | .null => .error (.notNullViolation "webhook_events.psp_event_id")
  | id => textParameter "psp_event_id" id

/-- Transition the payment that waits for the reference, if there is one. -/
def transition (eventType : Json) (pspReference : String) : Program Unit := do
  match ← selectForUpdate fun p => p.pspReference = some pspReference with
  | [] => pure ()
  | [payment] =>
      if payment.status = .authorized then do
        match ← ofExcept (kindOf eventType) with
        | some .capture => do
            let _ ← settle payment.id pspReference
            pure ()
        | some .failure => do
            let _ ← reverse payment.id
            pure ()
        | none => pure ()
      else pure ()
  | _ => raise .multipleResultsFound

/-- Steps 3 to 5: deduplicate, record and apply a decoded event. -/
def applyEvent (rawBody : String) (event : Event) : Program Unit := do
  let eventId ← ofExcept (eventKey event.eventId)
  let seen ← Prog.select (B := backend) fun s => s.webhookEvents.find? eventId
  match seen with
  | some _ => pure ()
  | none => do
      add (.webhookEvent ⟨eventId, rawBody, .processed⟩)
      flush
      if truthy event.pspReference then do
        let pspReference ← ofExcept (textParameter "psp_reference" event.pspReference)
        transition event.eventType pspReference
      else pure ()

def handle (ext : Externals) (rawBody signature : String) : Program Unit := do
  if signature = "" then raise .invalidSignature
  else do
    let isValid ← ofExcept (signatureIsValid ext rawBody signature)
    if isValid then do
      match ext.loads rawBody with
      | none => raise (.valueError "Invalid JSON payload")
      | some data => do
          let fresh ← uuid4
          let event ← ofExcept (parseEvent fresh.str data)
          applyEvent rawBody event
    else raise .invalidSignature

end Handling

end ApexPayments.Webhooks
