import ApexPayments.WebhookTransaction
import ApexPayments.RowLocking.Serial

/-!
Which JSON values the webhook service can take apart. The service looks for a Stripe
event under `data` and `object`, and reads the fields of a generic event otherwise; both
ways suppose objects where a body may have any value.
-/
namespace ApexPayments.Webhooks

open Domain Store Ledger Payments RowLocking Service

section Shapes

/-- The body is an object. What it has under `data` is an object, whose `object` is again
an object, or a list or a text that does not mention `object`; each may be absent. -/
def Legible : Json → Prop
  | .obj fields =>
      match fields.lookup "data" with
      | none => True
      | some (.obj inner) =>
          match inner.lookup "object" with
          | none => True
          | some (.obj _) => True
          | some _ => False
      | some (.arr xs) => .str "object" ∉ xs
      | some (.str s) => ¬ "object".toList <:+: s.toList
      | some _ => False
  | _ => False

/-- The field of an object. -/
def fieldOf (data : Json) (key : String) : Option Json :=
  match data with
  | .obj fields => fields.lookup key
  | _ => none

/-- The object that a Stripe event is about. -/
def stripeObject (data : Json) : Option Json := do
  let inner ← fieldOf data "data"
  fieldOf inner "object"

/-- The event id in the body, if it has one. -/
def decodedId (data : Json) : Option Json :=
  if (stripeObject data).isSome then fieldOf data "id"
  else (fieldOf data "pspEventId").or (fieldOf data "eventId")

def decodedType (data : Json) : Json :=
  if (stripeObject data).isSome then (fieldOf data "type").getD (.str "")
  else ((fieldOf data "type").or (fieldOf data "eventType")).getD (.str "")

def decodedReference (data : Json) : Json :=
  match stripeObject data with
  | some object => (fieldOf object "id").getD (.str "")
  | none => (fieldOf data "pspReference").getD (.str "")

/-- A text that a column takes if it is not too long. -/
def Text (j : Json) : Prop := ∃ s, j = .str s ∧ Char.ofNat 0 ∉ s.toList

def TooLong (j : Json) : Prop := ∃ s, j = .str s ∧ 255 < s.length

/-- A list or an object, which is in no set. -/
def Unhashable : Json → Prop
  | .arr _ => True
  | .obj _ => True
  | _ => False

/-- The bodies from which the service gets an event. -/
structure Readable (data : Json) : Prop where
  legible : Legible data
  id : ∀ id, decodedId data = some id → Text id
  reference : truthy (decodedReference data) = true → Text (decodedReference data)
  type : Unhashable (decodedType data) → truthy (decodedReference data) = true →
    TooLong (decodedReference data) ∨ ∃ id, decodedId data = some id ∧ TooLong id

end Shapes

section Parsing

theorem any_eq_isSome_lookup (fields : List (String × Json)) (key : String) :
    fields.any (fun field => field.1 = key) = (fields.lookup key).isSome := by
  induction fields with
  | nil => rfl
  | cons field fields ih =>
    obtain ⟨name, value⟩ := field
    by_cases hkey : name = key
    · simp [hkey]
    · have hne : (key == name) = false := beq_false_of_ne (Ne.symm hkey)
      simp only [List.any_cons, hkey, decide_false, Bool.false_or, ih, List.lookup_cons, hne]

theorem contains_obj (fields : List (String × Json)) (key : String) :
    contains (.obj fields) key = .ok (fields.lookup key).isSome :=
  congrArg Except.ok (any_eq_isSome_lookup fields key)

theorem contains_arr (xs : List Json) (key : String) (h : .str key ∉ xs) :
    contains (.arr xs) key = .ok false := by
  refine congrArg Except.ok (List.any_eq_false.mpr ?_)
  intro x hx
  cases x with
  | str s =>
    have hne : s ≠ key := by
      intro hsame
      exact h (hsame ▸ hx)
    simpa using hne
  | _ => simp

theorem contains_arr_of_mem (xs : List Json) (key : String) (h : .str key ∈ xs) :
    contains (.arr xs) key = .ok true :=
  congrArg Except.ok (List.any_eq_true.mpr ⟨.str key, h, by simp⟩)

/-- A legible body yields an event; only an absent id depends on the fresh one. -/
theorem parseEvent_legible {data : Json} (h : Legible data) (fresh : String) :
    parseEvent fresh data = .ok ⟨(decodedId data).getD (.str fresh), decodedType data,
      decodedReference data⟩ := by
  cases data with
  | obj fields =>
    have hgeneric : isStripeFormat (.obj fields) = .ok false → stripeObject (.obj fields) = none →
        parseEvent fresh (.obj fields) = .ok ⟨(decodedId (.obj fields)).getD (.str fresh),
          decodedType (.obj fields), decodedReference (.obj fields)⟩ := by
      intro hformat hnone
      unfold parseEvent decodedId decodedType decodedReference
      rw [hformat, hnone]
      simp only [fieldOf, Option.isSome_none, Bool.false_eq_true, if_false, Option.getD_or]
      rfl
    unfold isStripeFormat at hgeneric
    rw [contains_obj] at hgeneric
    simp only [Legible] at h
    cases hdata : fields.lookup "data" with
    | none =>
      rw [hdata] at hgeneric
      exact hgeneric rfl (by simp [stripeObject, fieldOf, hdata])
    | some inner =>
      have hsub : subscript (.obj fields) "data" = .ok inner := by simp [subscript, hdata]
      simp only [hdata, Option.isSome_some] at h hgeneric
      have hstripe : stripeObject (.obj fields) = fieldOf inner "object" := by
        simp [stripeObject, fieldOf, hdata]
      cases inner with
      | obj innerFields =>
        cases hobject : innerFields.lookup "object" with
        | none =>
          refine hgeneric ?_ (hstripe.trans hobject)
          change (do contains (← subscript (.obj fields) "data") "object") = _
          rw [hsub]
          exact (contains_obj innerFields "object").trans (by rw [hobject]; rfl)
        | some object =>
          have hinner : subscript (.obj innerFields) "object" = .ok object := by
            simp [subscript, hobject]
          have hformat : isStripeFormat (.obj fields) = .ok true := by
            unfold isStripeFormat
            rw [contains_obj, hdata]
            change (do contains (← subscript (.obj fields) "data") "object") = _
            rw [hsub]
            exact (contains_obj innerFields "object").trans (by rw [hobject]; rfl)
          simp only [hobject] at h
          cases object with
          | obj objectFields =>
            have hsome : stripeObject (.obj fields) = some (.obj objectFields) := hstripe.trans hobject
            unfold parseEvent decodedId decodedType decodedReference
            rw [hformat, hsome, hsub]
            change (do
              let object ← subscript (.obj innerFields) "object"
              pure (⟨_, _, (← getField object "id").getD (.str "")⟩ : Event)) = _
            rw [hinner]
            rfl
          | _ => exact h.elim
      | arr xs =>
        refine hgeneric ?_ hstripe
        change (do contains (← subscript (.obj fields) "data") "object") = _
        rw [hsub]
        exact contains_arr xs "object" h
      | str s =>
        refine hgeneric ?_ hstripe
        change (do contains (← subscript (.obj fields) "data") "object") = _
        rw [hsub]
        exact congrArg Except.ok (decide_eq_false h)
      | _ => exact h.elim
  | _ => exact h.elim

theorem bind_eq_ok {α β : Type} {x : Except Exn α} {f : α → Except Exn β} {b : β}
    (h : (x >>= f) = .ok b) : ∃ a, x = .ok a ∧ f a = .ok b := by
  cases x with
  | error e => contradiction
  | ok a => exact ⟨a, rfl, h⟩

theorem getField_ok {j : Json} {key : String} {v : Option Json} (h : getField j key = .ok v) :
    ∃ fields, j = .obj fields := by
  cases j with
  | obj fields => exact ⟨fields, rfl⟩
  | _ => contradiction

theorem subscript_ok {j : Json} {key : String} {v : Json} (h : subscript j key = .ok v) :
    ∃ fields, j = .obj fields ∧ fields.lookup key = some v := by
  cases j with
  | obj fields =>
    simp only [subscript] at h
    split at h
    · rename_i w hw
      cases h
      exact ⟨fields, rfl, hw⟩
    · contradiction
  | _ => contradiction

/-- Only a legible body yields an event. -/
theorem legible_of_parseEvent {data : Json} {fresh : String} {event : Event}
    (h : parseEvent fresh data = .ok event) : Legible data := by
  obtain ⟨stripe, hformat, hevent⟩ := bind_eq_ok h
  obtain ⟨fields, rfl⟩ : ∃ fields, data = .obj fields := by
    cases stripe with
    | true =>
      obtain ⟨id, hid, -⟩ := bind_eq_ok hevent
      exact getField_ok hid
    | false =>
      obtain ⟨id, hid, -⟩ := bind_eq_ok hevent
      exact getField_ok hid
  unfold isStripeFormat at hformat
  rw [contains_obj] at hformat
  simp only [Legible]
  cases hdata : fields.lookup "data" with
  | none => trivial
  | some inner =>
    have hsub : subscript (.obj fields) "data" = .ok inner := by simp [subscript, hdata]
    have hinner : contains inner "object" = .ok stripe := by
      rw [hdata, hsub] at hformat
      exact hformat
    -- the branch of a Stripe event reads a field of an object in an object
    have hstripe : stripe = true → ∃ innerFields objectFields, inner = .obj innerFields ∧
        innerFields.lookup "object" = some (.obj objectFields) := by
      intro htrue
      subst htrue
      obtain ⟨id, -, hevent⟩ := bind_eq_ok hevent
      obtain ⟨type, -, hevent⟩ := bind_eq_ok hevent
      obtain ⟨inner', hread, hevent⟩ := bind_eq_ok hevent
      obtain ⟨object, hread', hevent⟩ := bind_eq_ok hevent
      obtain ⟨reference, hfield, -⟩ := bind_eq_ok hevent
      rw [hsub] at hread
      cases hread
      obtain ⟨innerFields, hobj, hlookup⟩ := subscript_ok hread'
      obtain ⟨objectFields, rfl⟩ := getField_ok hfield
      exact ⟨innerFields, objectFields, hobj, hlookup⟩
    cases inner with
    | obj innerFields =>
      dsimp only
      cases hobject : innerFields.lookup "object" with
      | none => trivial
      | some object =>
        rw [contains_obj, hobject] at hinner
        obtain ⟨_, objectFields, hsame, hlookup⟩ := hstripe (Except.ok.inj hinner).symm
        cases hsame
        rw [hobject] at hlookup
        cases hlookup
        trivial
    | arr xs =>
      intro hmem
      rw [contains_arr_of_mem xs "object" hmem] at hinner
      obtain ⟨_, _, hsame, -⟩ := hstripe (Except.ok.inj hinner).symm
      contradiction
    | str s =>
      intro hmem
      obtain ⟨_, _, hsame, -⟩ := hstripe ((Except.ok.inj hinner).symm.trans (decide_eq_true hmem))
      contradiction
    | _ => contradiction

end Parsing

section Handling

variable {F : Frame backend} {eventType : Json}

/-- One of Python's own errors, or a null event id. -/
def Misread (e : Exn) : Prop := Pythonic e ∨ ∃ c, e = .notNullViolation c

theorem not_misread_of_refused {e : Exn} (h : Refused e) : ¬ Misread e := by
  rcases h with ⟨c, rfl⟩ | ⟨c, rfl⟩ | ⟨c, rfl⟩ | ⟨c, rfl⟩ <;> simp [Misread, Pythonic]

theorem not_misread_of_post {ps : List Posting} {L : Session backend} {e : Exn}
    (h : PostRaises F ps L e) : ¬ Misread e := by
  rcases h with h | h | ⟨before, p, after, -, -, -, rfl⟩
  · rcases validateBalanced_error h with ⟨n, rfl⟩ | ⟨m, rfl⟩ <;> simp [Misread, Pythonic]
  · exact not_misread_of_refused h
  · simp [Misread, Pythonic]

theorem not_misread_of_resolve {id : Uuid} {q : Payment → Payment} {t : Payment → Transfer}
    {L : Session backend} {e : Exn} (h : ResolveRaises F id q t L e) : ¬ Misread e := by
  rcases h with ⟨rfl, -⟩ | h | ⟨p, -, h⟩
  · simp [Misread, Pythonic]
  · exact not_misread_of_refused h
  · exact not_misread_of_post h

theorem unhashable_iff : Unhashable eventType ↔ ∃ e, kindOf eventType = .error e := by
  cases eventType with
  | str s =>
    simp only [Unhashable, kindOf]
    split
    · simp
    · split <;> simp
  | _ => simp [Unhashable, kindOf]

theorem text_iff_textParameter {column : String} {j : Json} :
    Text j ↔ ∃ s, textParameter column j = .ok s := by
  cases j with
  | str s =>
    simp only [Text, textParameter, Json.str.injEq]
    split <;> simp_all
  | _ => simp [Text, textParameter]

theorem text_iff_eventKey {j : Json} : Text j ↔ ∃ s, eventKey j = .ok s := by
  cases j with
  | null => simp [Text, eventKey]
  | _ => exact text_iff_textParameter

theorem eventKey_str {j : Json} {k : String} (h : eventKey j = .ok k) : j = .str k := by
  cases j with
  | null => contradiction
  | _ => exact textParameter_ok h

/-- A set lookup fails only on the type of an event whose payment is waiting. -/
theorem transition_reads (reference : String) (L : Session backend) (hp : L.pending = []) :
    (transition eventType reference).Ensures F L (Stop.Ends
      (fun e _ => Misread e → Unhashable eventType ∧ ∃ p : Payment,
        (view F.hi L.flushed).payments.find? p.id = some p ∧ p.pspReference = some reference)
      (fun _ _ => True)) := by
  unfold transition
  refine Prog.Ensures.bind (selectForUpdate_ensures _ L) (fun _ _ h => h.elim) ?_
  intro ps L₁ ⟨s, h⟩
  have hp₁ : L₁.pending = [] := h.pending.trans hp
  rcases ps with _ | ⟨p, _ | ⟨p', ps⟩⟩
  · exact Prog.Ensures.pure trivial
  · obtain ⟨hmatch, hfound⟩ := h.current p (List.mem_cons_self ..)
    dsimp only
    split
    · refine ensures_ofExcept ?_ ?_
      · intro kind _
        rcases kind with _ | _ | _
        · exact Prog.Ensures.pure trivial
        · refine Prog.Ensures.bind (settle_ensures p.id reference L₁ hp₁) ?_ ?_
          · exact fun e _ he hmisread => absurd hmisread (not_misread_of_resolve he)
          · exact fun _ _ _ => Prog.Ensures.pure trivial
        · refine Prog.Ensures.bind (reverse_ensures p.id L₁ hp₁) ?_ ?_
          · exact fun e _ he hmisread => absurd hmisread (not_misread_of_resolve he)
          · exact fun _ _ _ => Prog.Ensures.pure trivial
      · intro e he _
        exact ⟨unhashable_iff.mpr ⟨e, he⟩, p, hfound, of_decide_eq_true hmatch⟩
    · exact Prog.Ensures.pure trivial
  · refine Prog.Ensures.raise ?_
    intro hmisread
    simp [Misread, Pythonic] at hmisread

theorem varchar_of_event {s : Database} {r : WebhookEvent}
    (h : s.violation (.webhookEvent r) = none) : varchar 255 r.pspEventId = true := by
  have hchecks := (firstFailing_eq_none_iff _).mp h
  exact hchecks (varchar 255 r.pspEventId, .dataError "psp_event_id") (by simp [Database.checks])

/-- The processing of an event with a usable id is misled only by its type. -/
theorem applyEvent_reads (rawBody : String) (event : Event) {eventId : String}
    (hkey : eventKey event.eventId = .ok eventId) (L : Session backend) (hfl : L.flushed = [])
    (hp : L.pending = []) :
    (applyEvent rawBody event).Ensures F L (Stop.Ends
      (fun e _ => Misread e → Unhashable event.eventType ∧ truthy event.pspReference = true ∧
        varchar 255 eventId = true ∧ ∃ r p, event.pspReference = .str r ∧
          F.hi.payments.find? p.id = some p ∧ p.pspReference = some r)
      (fun _ _ => True)) := by
  unfold applyEvent
  rw [hkey]
  refine Prog.Ensures.select ?_
  intro s₀ hs₀
  cases hfind : (view s₀ L.flushed).webhookEvents.find? eventId with
  | some r => exact Prog.Ensures.pure trivial
  | none =>
    refine ensures_add (ensures_flush ?_ ?_)
    · intro hf
      change F.Flushes L.flushed (L.pending ++ [.insert (.webhookEvent ⟨eventId, rawBody, .processed⟩)]) at hf
      rw [hfl, hp] at hf
      obtain ⟨t, ht, haccepted⟩ := hf.1.2
      have hfits : varchar 255 eventId = true := varchar_of_event (s := t) haccepted
      split
      · rename_i htruthy
        refine ensures_ofExcept ?_ ?_
        · intro reference href
          refine (transition_reads reference _ rfl).ends ?_ fun _ _ h => h
          intro e _ he hmisread
          obtain ⟨htype, p, hfound, hreference⟩ := he hmisread
          refine ⟨htype, htruthy, hfits, reference, p, textParameter_ok href, ?_, hreference⟩
          simpa [Session.flushAll, Session.stage, Session.see, hfl, hp, view, Write.row, Database.put]
            using hfound
        · intro e he hmisread
          obtain rfl := textParameter_error he
          simp [Misread, Pythonic] at hmisread
      · exact Prog.Ensures.pure trivial
    · intro e _ he hmisread
      exact absurd hmisread (not_misread_of_refused (refused_of_flushFails he))

end Handling

section Totality

variable {ext : Externals} {rawBody signature : String} {data : Json}

/-- Every payment meets the constraints of its columns. -/
def Constrained (s : Database) : Prop := ∀ p ∈ s.payments.rows, s.violation (.payment p) = none

/-- The service gets an event out of the body, with an id and a reference that the database
takes as texts. -/
def Extracts (ext : Externals) (rawBody : String) (spent : List Uuid) : Prop :=
  ∃ data fresh event, ext.loads rawBody = some data ∧ fresh ∉ spent ∧
    parseEvent fresh.str data = .ok event ∧ (∃ k, eventKey event.eventId = .ok k) ∧
    (truthy event.pspReference = true →
      ∃ r, textParameter "psp_reference" event.pspReference = .ok r)

/-- The event is processed without misreading it, or the body is refused as invalid before
anything is written. -/
def Processed (ext : Externals) (rawBody : String) (spent : List Uuid) : Stop backend Unit → Prop :=
  Stop.Ends (fun (e : Exn) L => Extracts ext rawBody spent ∧ ¬ Misread e ∨
    e = .valueError "Invalid JSON payload" ∧ L.flushed = [] ∧ L.pending = [])
    (fun _ _ => Extracts ext rawBody spent)

/-- The body is processed so in every database. -/
def Processes (ext : Externals) (rawBody signature : String) : Prop :=
  ∀ s spent, Constrained s → (handle ext rawBody signature).Ensures (.alone s spent)
    (.fresh backend) (Processed ext rawBody spent)

variable (hsig : signature ≠ "") (hvalid : signatureIsValid ext rawBody signature = .ok true)
  (hloads : ext.loads rawBody = some data)

include hsig hvalid hloads in
theorem handle_signed : handle ext rawBody signature = (do
    let fresh ← uuid4
    let event ← ofExcept (parseEvent fresh.str data)
    applyEvent rawBody event) := by
  unfold handle
  rw [if_neg hsig, hvalid, hloads]
  rfl

/-- The event in a readable body. -/
theorem Readable.key (h : Readable data) (fresh : Uuid) :
    ∃ k, eventKey ((decodedId data).getD (.str fresh.str)) = .ok k ∧
      ∀ id, decodedId data = some id → id = .str k := by
  cases hid : decodedId data with
  | none =>
    obtain ⟨k, hk⟩ := text_iff_eventKey.mp ⟨fresh.str, rfl, Uuid.nul_notMem_str fresh⟩
    exact ⟨k, hk, by simp⟩
  | some id =>
    obtain ⟨k, hk⟩ := text_iff_eventKey.mp (h.id id hid)
    refine ⟨k, hk, ?_⟩
    intro id' hsame
    cases hsame
    exact eventKey_str hk

theorem varchar_of_payment {s : Database} {p : Payment} {r : String} (h : Constrained s)
    (hp : s.payments.find? p.id = some p) (href : p.pspReference = some r) :
    varchar 255 r = true := by
  have hchecks := (firstFailing_eq_none_iff _).mp (h p (Table.mem_of_find? hp))
  have hcolumn := hchecks (p.pspReference.all (varchar 255), .dataError "psp_reference")
    (by simp [Database.checks])
  simpa [href] using hcolumn

theorem not_tooLong {s : String} (h : varchar 255 s = true) : ¬ TooLong (.str s) := by
  intro ⟨s', hsame, hlong⟩
  cases hsame
  have hlength := (of_decide_eq_true h).1
  omega

include hsig hvalid hloads in
theorem processes_of_readable (h : Readable data) : Processes ext rawBody signature := by
  intro s spent hs
  rw [handle_signed hsig hvalid hloads]
  refine ensures_uuid4 ?_
  intro fresh hfresh _
  have hparse := parseEvent_legible h.legible fresh.str
  obtain ⟨k, hkey, hid⟩ := h.key fresh
  have hextracts : Extracts ext rawBody spent :=
    ⟨data, fresh, _, hloads, hfresh, hparse, ⟨k, hkey⟩,
      fun htruthy => text_iff_textParameter.mp (h.reference htruthy)⟩
  rw [hparse]
  refine (applyEvent_reads rawBody _ hkey _ rfl rfl).ends ?_ fun _ _ _ => hextracts
  intro e L he
  refine Or.inl ⟨hextracts, ?_⟩
  intro hmisread
  obtain ⟨htype, htruthy, hfits, r, p, href, hfound, hreference⟩ := he hmisread
  rcases h.type htype htruthy with hlong | ⟨id, hsome, hlong⟩
  · have hcolumn := varchar_of_payment hs hfound hreference
    dsimp only at href
    rw [href] at hlong
    exact not_tooLong hcolumn hlong
  · rw [hid id hsome] at hlong
    exact not_tooLong hfits hlong

/-- A payment that waits for the event with the reference `r`. -/
def waitingPayment (r : String) : Payment := ⟨10, "shop", 2, 3, 50, "USD", .authorized, some r, 0, 0, 0⟩

def waitingDatabase (r : String) : Database :=
  { sampleDatabase with payments := ⟨[waitingPayment r], by simp⟩ }

/-- A database in which the event `k` has been recorded. -/
def recordedDatabase (k : String) : Database :=
  { sampleDatabase with webhookEvents := ⟨[⟨k, "", .processed⟩], by simp⟩ }

theorem constrained_recorded (k : String) : Constrained (recordedDatabase k) := by
  intro p hp
  simp [recordedDatabase, sampleDatabase, Table.empty] at hp

theorem constrained_waiting {r : String} (h : varchar 255 r = true) :
    Constrained (waitingDatabase r) := by
  intro p hp
  obtain rfl := List.mem_singleton.mp hp
  apply (firstFailing_eq_none_iff _).mpr
  intro c hc
  simp only [Database.checks, List.mem_cons, List.not_mem_nil, or_false] at hc
  rcases hc with rfl | rfl | rfl | rfl | rfl | rfl | rfl | rfl
  · simp only [waitingPayment]
    decide
  · simp only [waitingPayment]
    decide
  · simp only [waitingPayment]
    decide
  · simpa [waitingPayment] using h
  · simp only [waitingPayment]
    decide
  · simp only [waitingPayment]
    decide
  · rfl
  · rfl

/-- The service returns at once for an event that it has recorded. -/
theorem runs_recorded {event : Event} {k : String} (hkey : eventKey event.eventId = .ok k)
    {L : Session backend} (hL : L.snapshots = []) (hfl : L.flushed = []) :
    (applyEvent rawBody event).Runs (.alone (recordedDatabase k) []) L
      (.value () (L.see (recordedDatabase k))) := by
  unfold applyEvent
  rw [hkey]
  apply (Prog.runs_select_alone (by simp [hL])).mpr
  have hfound : (view (recordedDatabase k) L.flushed).webhookEvents.find? k =
      some ⟨k, "", .processed⟩ := by
    rw [hfl]
    simp [view, recordedDatabase, Table.find?]
  rw [hfound]
  rfl

/-- A query with `FOR UPDATE` that finds the one matching row. -/
theorem runs_selectForUpdate {matching : Payment → Bool} {s : Database} {p : Payment}
    {L : Session backend} (hL : ∀ t ∈ L.snapshots, t = s)
    (hrows : (view s L.flushed).payments.rows = [p]) (hp : matching p = true) :
    (selectForUpdate matching).Runs (.alone s []) L
      (.value [p] ((L.see s).hold (.payment p.id))) := by
  have hfound : ((view s L.flushed).payments.rows.filter matching).map Payment.id = [p.id] := by
    simp [hrows, hp]
  have hfind : (view s (L.see s).flushed).get (.payment p.id) = some (.payment p) := by
    change ((view s L.flushed).payments.find? p.id).map Row.payment = _
    simp [Table.find?, hrows]
  apply (Prog.runs_select_alone hL).mpr
  rw [hfound]
  refine ⟨⟨[p.id], .refl _⟩, Or.inr ⟨.payment p, hfind, ?_⟩⟩
  change Prog.Runs _ (Pure.pure (if matching p then [p] else [])) _ _
  rw [if_pos hp]
  rfl

/-- An event of an unhashable type meets the payment that waits for it. -/
theorem runs_waiting {event : Event} {k r : String} (hkey : eventKey event.eventId = .ok k)
    (hfits : varchar 255 k = true) (hjson : Char.ofNat 0 ∉ rawBody.toList)
    (href : event.pspReference = .str r) (htruthy : truthy event.pspReference = true)
    (hnul : Char.ofNat 0 ∉ r.toList) (htype : Unhashable event.eventType) {L : Session backend}
    (hL : L.snapshots = []) (hfl : L.flushed = []) (hp : L.pending = []) :
    ∃ L', (applyEvent rawBody event).Runs (.alone (waitingDatabase r) []) L
      (.raised .typeError L') := by
  set s := waitingDatabase r with hs
  set w : Write backend := .insert (.webhookEvent ⟨k, rawBody, .processed⟩) with hw
  set L₁ := ((L.see s).stage w).flushAll with hL₁
  have hself : (Frame.alone (B := backend) s []).Sees s :=
    (Frame.alone_sees (B := backend) s s []).mpr rfl
  have hflush : (Frame.alone (B := backend) s []).Flushes L.flushed (L.pending ++ [w]) := by
    rw [hfl, hp]
    refine ⟨⟨?_, s, hself, ?_⟩, trivial⟩
    · intro row hrow
      rw [hw] at hrow
      cases hrow
      rfl
    · apply (firstFailing_eq_none_iff _).mpr
      intro c hc
      simp only [hw, Write.row, Database.checks, List.mem_cons, List.not_mem_nil, or_false] at hc
      rcases hc with rfl | rfl
      · exact hfits
      · simpa using hjson
  obtain ⟨e, he⟩ := unhashable_iff.mp htype
  obtain rfl := kindOf_error he
  have hparameter : textParameter "psp_reference" (.str r) = .ok r := by simp [textParameter, hnul]
  have hselect : (selectForUpdate fun p => p.pspReference = some r).Runs (.alone s []) L₁
      (.value [waitingPayment r] ((L₁.see s).hold (.payment 10))) := by
    apply runs_selectForUpdate
    · simp [hL₁, Session.flushAll, Session.stage, Session.see, hL]
    · simp [hL₁, Session.flushAll, Session.stage, Session.see, hfl, hp, hs, hw, view, Write.row,
        Database.put, waitingDatabase]
    · simp [waitingPayment]
  have htransition : (transition event.eventType r).Runs (.alone s []) L₁
      (.raised .typeError ((L₁.see s).hold (.payment 10))) := by
    apply (Prog.runs_bind _ _ _ _ _).mpr
    refine ⟨_, hselect, ?_⟩
    change Prog.Runs _ (ofExcept (kindOf event.eventType) >>= _) _ _
    rw [he]
    rfl
  refine ⟨(L₁.see s).hold (.payment 10), ?_⟩
  unfold applyEvent
  rw [hkey]
  apply (Prog.runs_select_alone (by simp [hL])).mpr
  have hmissing : (view s L.flushed).webhookEvents.find? k = none := by
    rw [hfl]
    rfl
  rw [hmissing]
  refine Or.inl ⟨hflush, ?_⟩
  rw [if_pos htruthy, href, hparameter]
  exact htransition

include hsig hvalid hloads in
/-- What happens after the identifier 0 has been drawn, with no other one spent. -/
theorem Processes.of_runs (h : Processes ext rawBody signature) {s : Database} (hs : Constrained s)
    {o : Stop backend Unit}
    (ho : (ofExcept (parseEvent (Uuid.str 0) data) >>= applyEvent rawBody).Runs (.alone s [])
      ((Session.fresh backend).draw 0) o) : Processed ext rawBody [] o := by
  apply h s [] hs
  rw [handle_signed hsig hvalid hloads]
  exact ⟨0, by simp [Frame.alone], by simp [Session.fresh], ho⟩

include hsig hvalid hloads in
theorem readable_of_processes (hjson : Char.ofNat 0 ∉ rawBody.toList)
    (h : Processes ext rawBody signature) : Readable data := by
  have hruns := fun {s} hs {o} => Processes.of_runs hsig hvalid hloads h (s := s) hs (o := o)
  have hlegible : Legible data := by
    cases hparse : parseEvent (Uuid.str 0) data with
    | ok event => exact legible_of_parseEvent hparse
    | error e =>
      exfalso
      have hends := hruns (constrained_recorded "") (o := .raised e ((Session.fresh backend).draw 0))
        (by rw [hparse]
            rfl)
      have hmisread : Misread e := Or.inl (pythonic_of_parse e hparse)
      rcases hends with ⟨-, hnot⟩ | ⟨rfl, -⟩
      · exact hnot hmisread
      · simp [Misread, Pythonic] at hmisread
  have hparse := parseEvent_legible hlegible
  -- an event that has been extracted once has the same fields in every run
  have hfields : Extracts ext rawBody [] → (∀ id, decodedId data = some id → Text id) ∧
      (truthy (decodedReference data) = true → Text (decodedReference data)) := by
    intro ⟨data', fresh, event, hloads', _, hevent, hkey, href⟩
    rw [hloads] at hloads'
    cases hloads'
    rw [hparse] at hevent
    cases hevent
    refine ⟨?_, fun htruthy => text_iff_textParameter.mpr (href htruthy)⟩
    intro id hid
    rw [hid] at hkey
    exact text_iff_eventKey.mpr hkey
  set event : Event := ⟨(decodedId data).getD (.str (Uuid.str 0)), decodedType data,
    decodedReference data⟩ with hevent
  have hparse₀ : parseEvent (Uuid.str 0) data = .ok event := hparse _
  have hextracts : Extracts ext rawBody [] := by
    cases hkey : eventKey event.eventId with
    | ok k =>
      refine hruns (constrained_recorded k)
        (o := .value () (((Session.fresh backend).draw 0).see (recordedDatabase k))) ?_
      rw [hparse₀]
      exact runs_recorded hkey rfl rfl
    | error e =>
      have hrun : (ofExcept (parseEvent (Uuid.str 0) data) >>= applyEvent rawBody).Runs
          (.alone (recordedDatabase "") []) ((Session.fresh backend).draw 0)
          (.raised e ((Session.fresh backend).draw 0)) := by
        rw [hparse₀]
        change Prog.Runs _ (ofExcept (eventKey event.eventId) >>= _) _ _
        rw [hkey]
        rfl
      have hends := hruns (constrained_recorded "") hrun
      rcases hends with ⟨hextracts, -⟩ | ⟨rfl, -⟩
      · exact hextracts
      · rcases eventKey_error hkey with he | ⟨c, he⟩ <;> contradiction
  obtain ⟨hid, href⟩ := hfields hextracts
  refine ⟨hlegible, hid, href, ?_⟩
  intro htype htruthy
  obtain ⟨r, hr, hnul⟩ := href htruthy
  by_contra hshort
  rw [not_or] at hshort
  have hfits : ∀ {s : String}, Char.ofNat 0 ∉ s.toList → ¬ TooLong (.str s) → varchar 255 s = true := by
    intro s hnul hnot
    refine decide_eq_true ⟨?_, hnul⟩
    by_contra hlong
    exact hnot ⟨s, rfl, by omega⟩
  obtain ⟨k, hkey, hkfits⟩ : ∃ k, eventKey event.eventId = .ok k ∧ varchar 255 k = true := by
    cases hsome : decodedId data with
    | none =>
      have hkey : event.eventId = .str (Uuid.str 0) := by simp [hevent, hsome]
      rw [hkey]
      exact ⟨Uuid.str 0, by decide, by decide⟩
    | some id =>
      obtain ⟨k, rfl, hk⟩ := hid id hsome
      have hkey : event.eventId = .str k := by simp [hevent, hsome]
      rw [hkey]
      refine ⟨k, by simp [eventKey, textParameter, hk], hfits hk fun hlong => ?_⟩
      exact hshort.2 ⟨_, hsome, hlong⟩
  have hrfits : varchar 255 r = true := hfits hnul fun hlong => hshort.1 (hr ▸ hlong)
  obtain ⟨L', hrun⟩ := runs_waiting hkey hkfits hjson hr htruthy hnul htype
    (L := (Session.fresh backend).draw 0) rfl rfl rfl
  have hends := hruns (constrained_waiting hrfits) (o := .raised .typeError L')
    (by rw [hparse₀]
        exact hrun)
  rcases hends with ⟨-, hnot⟩ | ⟨hvalue, -⟩
  · exact hnot (Or.inl (Or.inl rfl))
  · contradiction

end Totality

section Sample

/-- A decoder for two bodies, the number 5 and the object without fields. -/
def jsonExternals : Externals :=
  { sampleExternals with loads := fun body =>
      if body = "5" then some (.int 5) else if body = "\x7b\x7d" then some (.obj []) else none }

theorem json_without_nul {body : String} {data : Json} (h : jsonExternals.loads body = some data) :
    Char.ofNat 0 ∉ body.toList := by
  change (if body = "5" then _ else if body = "\x7b\x7d" then _ else none) = some data at h
  split at h
  · rename_i hbody
    subst hbody
    decide
  · split at h
    · rename_i hbody
      subst hbody
      decide
    · contradiction

end Sample

end ApexPayments.Webhooks
