import SubagentBridge.Messaging.Bus
import SubagentBridge.Storage.AuditLedgerLaws

/-! The keys and payloads of the bus tell its messages apart, and each of its calls appends at
most once. -/

namespace SubagentBridge.Messaging

open Library AuditLedger
open Domain (Message MessageRegistry)

/-! ## Keys -/

section Keys

theorem ackKey_eq (messageId recipientId : String) :
    ackKey messageId recipientId = "ack:" ++ framed messageId recipientId := by
  simp only [ackKey, framed, String.append_assoc]

theorem messageKey_injective {id id' : String} (h : messageKey id = messageKey id') : id = id' := by
  have hlist := congrArg String.toList h
  simp only [messageKey, String.toList_append, List.append_cancel_left_eq] at hlist
  exact String.toList_injective hlist

theorem ackKey_injective {id id' recipient recipient' : String}
    (h : ackKey id recipient = ackKey id' recipient') : id = id' ∧ recipient = recipient' := by
  have hlist := congrArg String.toList h
  simp only [ackKey_eq, String.toList_append, List.append_cancel_left_eq] at hlist
  exact framed_injective (String.toList_injective hlist)

theorem messageKey_ne_ackKey (id id' recipient : String) :
    messageKey id ≠ ackKey id' recipient := by
  intro h
  have hlist := congrArg (fun s => s.toList.head?) h
  simp [messageKey, ackKey_eq, String.toList_append] at hlist

theorem not_blank_append {s : String} (t : String) (h : isBlank s = false) :
    isBlank (s ++ t) = false := by
  rw [isBlank, String.toList_append, List.all_append]
  rw [isBlank] at h
  rw [h, Bool.false_and]

end Keys

/-! ## Payloads -/

section Payloads

variable {F : Type}

def fields (m : Message) : Dict String String :=
  [("message_id", m.messageId), ("from_principal", m.fromPrincipal),
    ("to_principal", m.toPrincipal), ("task_id", m.taskId), ("dispatch_id", m.dispatchId),
    ("payload", m.payload)]

def ackFields (messageId recipientId : String) : Dict String String :=
  [("message_id", messageId), ("recipient_id", recipientId)]

theorem fields_public (m : Message) : ∀ p ∈ fields m, isPrivate p.1 = false := by
  have h : ∀ k ∈ ["message_id", "from_principal", "to_principal", "task_id", "dispatch_id",
      "payload"], isPrivate k = false := by
    decide +kernel
  intro p hp
  exact h p.1 (List.mem_map_of_mem (f := Prod.fst) hp)

theorem fields_nodup (m : Message) : (fields m).keys.Nodup := by
  simp [fields, Dict.keys]

theorem ackFields_public (id recipient : String) :
    ∀ p ∈ ackFields id recipient, isPrivate p.1 = false := by
  have h : ∀ k ∈ ["message_id", "recipient_id"], isPrivate k = false := by
    decide +kernel
  intro p hp
  exact h p.1 (List.mem_map_of_mem (f := Prod.fst) hp)

theorem fields_injective {m m' : Message} (h : ∀ k, (fields m).get? k = (fields m').get? k) :
    m = m' := by
  have h₁ := h "message_id"
  have h₂ := h "from_principal"
  have h₃ := h "to_principal"
  have h₄ := h "task_id"
  have h₅ := h "dispatch_id"
  have h₆ := h "payload"
  simp only [fields, Dict.get?_cons] at h₁ h₂ h₃ h₄ h₅ h₆
  obtain ⟨_, _, _, _, _, _, _⟩ := m
  obtain ⟨_, _, _, _, _, _, _⟩ := m'
  simp_all

section Stored

variable [FloatText F]

variable (F) in
def stored (m : Message) : String := canonical (Json.ofDict (fields m) : Json F)

theorem stored_injective {m m' : Message} (h : stored F m = stored F m') : m = m' := by
  rw [stored, stored, canonical_eq_iff (wf_ofDict (fields_nodup m)) (wf_ofDict (fields_nodup m')),
    SameData] at h
  obtain ⟨ms, hms, hget⟩ := sortKeys_ofDict (F := F) (fields_nodup m)
  obtain ⟨ms', hms', hget'⟩ := sortKeys_ofDict (F := F) (fields_nodup m')
  refine fields_injective fun k => ?_
  have hobj : ms = ms' := Json.obj.inj (hms.symm.trans (h.trans hms'))
  have hk := (hget k).symm.trans (hobj ▸ hget' k)
  exact Option.map_injective (fun _ _ => Json.str.inj) hk

end Stored

def Tells (x : AuditEvent F) (messageId recipientId : String) : Prop :=
  x.eventType = "MESSAGE_QUEUED" ∧ item x.payload "message_id" = .ok (.str messageId) ∧
    item x.payload "to_principal" = .ok (.str recipientId)

theorem text_eq_some {v : Json F} {s : String} (h : v.text = some s) : v = .str s := by
  cases v <;> simp_all [Json.text]

theorem mem_queued {id : String} {events found : List (AuditEvent F)}
    (h : queued id events = .ok found) {x : AuditEvent F} (hx : x ∈ found) :
    x ∈ events ∧ x.eventType = "MESSAGE_QUEUED" ∧ item x.payload "message_id" = .ok (.str id) := by
  induction events generalizing found with
  | nil =>
    cases h
    cases hx
  | cons e events ih =>
    rw [queued] at h
    split at h
    next htype =>
      obtain ⟨v, hv, h⟩ := bind_ok.mp h
      obtain ⟨rest, hrest, h⟩ := bind_ok.mp h
      cases h
      split at hx
      next hid =>
        rcases List.mem_cons.mp hx with rfl | hx
        · exact ⟨List.mem_cons_self, htype, text_eq_some hid ▸ hv⟩
        · exact ⟨List.mem_cons_of_mem _ (ih hrest hx).1, (ih hrest hx).2⟩
      next => exact ⟨List.mem_cons_of_mem _ (ih hrest hx).1, (ih hrest hx).2⟩
    next => exact ⟨List.mem_cons_of_mem _ (ih h hx).1, (ih h hx).2⟩

theorem tells_of_targets {id recipient : String} {events found : List (AuditEvent F)}
    (h : queued id events = .ok found) (ht : targets found recipient = .ok true) :
    ∃ x ∈ events, Tells x id recipient := by
  unfold targets at ht
  split at ht
  next x =>
    obtain ⟨v, hv, ht⟩ := bind_ok.mp ht
    obtain ⟨hx, htype, hid⟩ := mem_queued h List.mem_cons_self
    have hrecipient : v.text = some recipient := by simpa using Except.ok.inj ht
    exact ⟨x, hx, htype, hid, text_eq_some hrecipient ▸ hv⟩
  next => cases ht

end Payloads

/-! ## The discipline of a call -/

section Discipline

variable {F : Type}

abbrev History (F : Type) := List (Event (sig F) Error)

def Request.key : Request → String
  | .enqueue message _ _ => messageKey message.messageId
  | .ack messageId recipientId => ackKey messageId recipientId

def Request.kind : Request → String
  | .enqueue _ _ _ => "MESSAGE_QUEUED"
  | .ack _ _ => "MESSAGE_ACK"

def Request.payload : Request → Dict String String
  | .enqueue message _ _ => fields message
  | .ack messageId recipientId => ackFields messageId recipientId

abbrev Request.append (q : Request) : Op F :=
  .appendOnce q.key q.kind (q.payload.map fun p => (some p.1, .str p.2))

def Ready : Request → History F → Prop
  | .enqueue _ _ _, h => h = []
  | .ack messageId recipientId, h => ∃ events, h = [⟨.read, .ok events⟩] ∧
      ∃ x ∈ events, Tells x messageId recipientId

def Allowed (q : Request) (h : History F) (o : Op F) : Prop :=
  (o = .read ∧ h = [] ∧ ∃ messageId recipientId, q = .ack messageId recipientId) ∨
    o = q.append ∧ Ready q h

abbrev protocol : Protocol (sig F) Error := .ofHistory Allowed fun _ _ => True

def Outcome (q : Request) (m : (protocol (F := F)).Mode) (r : Except Error Bool) : Prop :=
  (∀ b, r = .ok b → ⟨q.append, .ok b⟩ ∈ m.2) ∧ ∀ a, ⟨q.append, a⟩ ∈ m.2 → r = a

variable {q : Request} {h : History F}

theorem append_notMem (hready : Ready q h) (a : Except Error Bool) : ⟨q.append, a⟩ ∉ h := by
  cases q with
  | enqueue =>
    obtain rfl : h = [] := hready
    simp
  | ack =>
    obtain ⟨events, rfl, -⟩ := hready
    simp

theorem append_follows (hready : Ready q h) :
    (perform q.append).Follows protocol (Outcome q) (q, h) := by
  refine ⟨.inr ⟨rfl, hready⟩, fun r _ => ?_⟩
  have hout : Outcome q (q, h ++ [⟨q.append, r⟩]) r := by
    refine ⟨fun b hb => hb ▸ by simp, fun a ha => ?_⟩
    rcases List.mem_append.mp ha with ha | ha
    · exact (append_notMem hready a ha).elim
    · cases List.mem_singleton.mp ha
      rfl
  cases r with
  | error e => exact hout
  | ok b => exact hout

theorem outcome_error {e : Error} (hno : ∀ a, ⟨q.append, a⟩ ∉ h) : Outcome q (q, h) (.error e) :=
  ⟨by rintro b ⟨⟩, fun a ha => (hno a ha).elim⟩

theorem enqueue_follows (message : Message) (taskId dispatchId : String) :
    (enqueue message taskId dispatchId).Follows (protocol (F := F))
      (Outcome (.enqueue message taskId dispatchId)) (.enqueue message taskId dispatchId, []) := by
  have herr : ∀ e, Outcome (F := F) (.enqueue message taskId dispatchId)
      (.enqueue message taskId dispatchId, []) (.error e) := fun e => outcome_error (by simp)
  simp only [enqueue, Proc.bind_eq]
  refine (Proc.follows_require_bind ..).mpr ⟨fun _ => ?_, fun _ => herr _⟩
  refine (Proc.follows_require_bind ..).mpr ⟨fun _ => ?_, fun _ => herr _⟩
  refine (Proc.follows_require_bind ..).mpr ⟨fun _ => ?_, fun _ => herr _⟩
  exact append_follows (q := .enqueue message taskId dispatchId) rfl

theorem ack_follows (messageId recipientId : String) :
    (ack messageId recipientId).Follows (protocol (F := F)) (Outcome (.ack messageId recipientId))
      (.ack messageId recipientId, []) := by
  have herr : ∀ (h : History F) e, (∀ x ∈ h, x.op = .read) → Outcome (.ack messageId recipientId)
      (.ack messageId recipientId, h) (.error e) := by
    intro h e hh
    refine outcome_error fun a ha => ?_
    cases hh _ ha
  simp only [ack, Proc.bind_eq]
  refine (Proc.follows_require_bind ..).mpr ⟨fun _ => ?_, fun _ => herr _ _ (by simp)⟩
  refine (Proc.follows_op_bind ..).mpr ⟨.inl ⟨rfl, rfl, _, _, rfl⟩, fun events _ => ?_, fun e _ =>
    herr _ _ (by simp)⟩
  have hread : ∀ e, Outcome (.ack messageId recipientId)
      (.ack messageId recipientId, [⟨.read, .ok events⟩]) (.error e) :=
    fun e => herr _ e (by simp)
  cases hq : queued messageId events with
  | error e => exact hread _
  | ok found =>
    simp only [Proc.ofExcept, Proc.bind]
    cases ht : targets found recipientId with
    | error e => exact hread _
    | ok matched =>
      refine (Proc.follows_require_bind ..).mpr ⟨fun hm => ?_, fun _ => hread _⟩
      subst hm
      exact append_follows (q := .ack messageId recipientId)
        ⟨events, rfl, tells_of_targets hq ht⟩

theorem body_follows (q : Request) :
    (body q).Follows (protocol (F := F)) (Outcome q) (q, []) := by
  cases q with
  | enqueue => exact enqueue_follows ..
  | ack => exact ack_follows ..

end Discipline

end SubagentBridge.Messaging
