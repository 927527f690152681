import SubagentBridge.Library.Solo
import SubagentBridge.Messaging.BusLaws
import SubagentBridge.Storage.AuditLedgerRuns

/-! What every interleaving of calls on the bus keeps: a message is enqueued once and
acknowledged once, by its recipient; alone, the bus answers as the registry in memory. -/

namespace SubagentBridge.Messaging

open Library AuditLedger
open Domain (Message MessageRegistry)

/-! ## Runs -/

structure Fresh (F : Type) [FloatText F] (sha : String → String) (stream : String) where
  db : Db
  sound : Sound F sha db
  unused : db.rows stream = []

section Runs

variable {F : Type} [FloatText F] (sha : String → String) (bus : DurableMessageBus)

abbrev Calls := (machine (F := F) sha bus).Config

abbrev Step := Machine.step (M := machine (F := F) sha bus)

abbrev start (file : Fresh F sha bus.stream) : Calls (F := F) sha bus :=
  (machine sha bus).initial file.db

variable {sha bus} {file : Fresh F sha bus.stream} {c c' c₁ c₂ : Calls (F := F) sha bus}
variable {ls ls' : List (machine (F := F) sha bus).Label} {i j : Nat} {w : Bool} {db : Db}
variable {q : Request} {o : Op F} {h : History F}
variable {k : Except Error o.Ret → Call F Bool}

theorem acts_allowed (hrun : Library.Run (Step sha bus) (start sha bus file) ls c)
    (hact : Machine.Acts c i w c' q o k h) : Allowed q h o := by
  have ha := hact.allowed (P := protocol) (Q := fun q => Outcome q) body_follows
    (fun _ _ _ _ _ _ => trivial) hrun
  rwa [Protocol.after_ofHistory] at ha

theorem outcome_call (hrun : Library.Run (Step sha bus) (start sha bus file) ls c)
    {call : (machine (F := F) sha bus).Activity} (hc : c.calls[i]? = some call)
    {r : Except Error Bool} (hr : call.proc.result = some r) :
    Outcome call.request (call.request, call.hist) r := by
  have hout := Machine.finished (P := protocol) (Q := fun q => Outcome q) body_follows
    (fun _ _ _ _ _ _ => trivial) hrun (List.mem_of_getElem? hc) hr
  rwa [Machine.Activity.mode, Protocol.after_ofHistory] at hout

structure Entry (q : Request) (r : Row) : Prop where
  key : r.key = q.key
  kind : r.kind = q.kind
  body : r.payloadJson = canonical (.ofDict q.payload : Json F)

omit [FloatText F] in
theorem scrub_request (hb : isBlank bus.stream = false) (q : Request) :
    scrubPayload bus.stream q.key q.kind
        (.mapping (q.payload.map fun p => (some p.1, .str p.2)) : Value F) =
      .ok (.ofDict q.payload) := by
  cases q with
  | enqueue message taskId dispatchId =>
    refine scrubPayload_strings ⟨hb, not_blank_append _ ?_, ?_⟩ (fields_public _) (fields_nodup _)
    · decide +kernel
    · exact (by decide +kernel : isBlank "MESSAGE_QUEUED" = false)
  | ack messageId recipientId =>
    refine scrubPayload_strings ⟨hb, ?_, ?_⟩ (ackFields_public _ _) ?_
    · rw [Request.key, ackKey_eq]
      exact not_blank_append _ (by decide +kernel)
    · exact (by decide +kernel : isBlank "MESSAGE_ACK" = false)
    · simp [Request.payload, ackFields, Dict.keys]

theorem exec_append (hs : Sound F sha db) (q : Request) (w : Bool) :
    (w = true ∧ exec (F := F) sha bus q.append w db = (.error (.ledger .operational), db)) ∨
      w = false ∧ ∃ r db', Appended sha bus.stream q.key q.kind
          (.mapping (q.payload.map fun p => (some p.1, .str p.2)) : Value F) db r db' ∧
        exec (F := F) sha bus q.append w db = ((r.map (·.2)).mapError .ledger, db') := by
  rw [exec]
  split
  next hw => exact .inl ⟨hw, rfl⟩
  next hw =>
    refine .inr ⟨by simpa using hw, _, _, hs.appendOnce_cases .., rfl⟩

/-- All that an append can do: it fails, it adds the entry, or it finds the key there. -/
inductive Appends (stream : String) (q : Request) (db : Db) :
    Bool → Except Error Bool → Db → Prop
  | fails : Appends stream q db true (.error (.ledger .operational)) db
  | adds (r : Row) : db.findKey stream q.key = none → Entry (F := F) q r →
      Appends stream q db false (.ok true) (db.record stream r)
  | replays (r : Row) : db.findKey stream q.key = some r → Entry (F := F) q r →
      Appends stream q db false (.ok false) db
  | conflicts (r : Row) : db.findKey stream q.key = some r → ¬ Entry (F := F) q r →
      Appends stream q db false
        (.error (.ledger (.replayConflict "idempotency key reused for a different event"))) db

theorem append_cases (hb : isBlank bus.stream = false) (hs : Sound F sha db) (q : Request)
    (w : Bool) : Appends (F := F) bus.stream q db w (exec (F := F) sha bus q.append w db).1
      (exec (F := F) sha bus q.append w db).2 := by
  rcases exec_append hs q w with ⟨rfl, he⟩ | ⟨rfl, r, db', happ, he⟩ <;> rw [he]
  · exact .fails
  have hscrub := scrub_request (F := F) hb q
  cases happ with
  | refused e hp => cases hscrub.symm.trans hp
  | conflict data r hp hk hne =>
    obtain rfl := Except.ok.inj (hscrub.symm.trans hp)
    exact .conflicts r hk fun hentry => hne ⟨hentry.kind, hentry.body⟩
  | known data r hp hk hkind hbody =>
    obtain rfl := Except.ok.inj (hscrub.symm.trans hp)
    exact .replays r hk ⟨(findKey_some hk).2, hkind, hbody⟩
  | fresh data row hp hk hrow =>
    obtain rfl := Except.ok.inj (hscrub.symm.trans hp)
    subst hrow
    exact .adds _ hk ⟨rfl, rfl, rfl⟩


theorem exec_read (w : Bool) : (exec (F := F) sha bus .read w db).2 = db := by
  rw [exec]
  split <;> rfl

theorem step_keeps (hrun : Library.Run (Step sha bus) (start sha bus file) ls c)
    (hs : Sound F sha c.state) {l : (machine (F := F) sha bus).Label}
    (hstep : Step sha bus c l = some c') :
    Sound F sha c'.state ∧ ∀ s, c.state.rows s <+: c'.state.rows s := by
  cases l with
  | start q => exact Machine.step_start hstep ▸ ⟨hs, fun _ => List.prefix_rfl⟩
  | act i w =>
    obtain ⟨q, o, k, h, hact⟩ := Machine.step_act hstep
    rw [hact.result]
    rcases acts_allowed hrun hact with ⟨rfl, -⟩ | ⟨rfl, -⟩
    · rw [show ((machine sha bus).exec .read w c.state).2 = c.state from exec_read w]
      exact ⟨hs, fun _ => List.prefix_rfl⟩
    · rcases exec_append hs q w with ⟨-, he⟩ | ⟨-, r, db', happ, he⟩
      · rw [show (machine sha bus).exec q.append w c.state = _ from he]
        exact ⟨hs, fun _ => List.prefix_rfl⟩
      · rw [show (machine sha bus).exec q.append w c.state = _ from he]
        exact ⟨happ.sound hs, happ.grows⟩

theorem sound_run (hrun : Library.Run (Step sha bus) (start sha bus file) ls c) :
    Sound F sha c.state := by
  induction hrun with
  | refl => exact file.sound
  | tail hp _ hs ih => exact (step_keeps hp ih hs).1

def Created (call : (machine (F := F) sha bus).Activity) : Prop :=
  ⟨call.request.append, .ok true⟩ ∈ call.hist

theorem result_of_append (hrun : Library.Run (Step sha bus) (start sha bus file) ls c)
    {call : (machine (F := F) sha bus).Activity} (hc : c.calls[i]? = some call)
    {a : Except Error Bool} (ha : ⟨call.request.append, a⟩ ∈ call.hist) :
    call.proc.result = some a := by
  have hD := Machine.disciplined (P := protocol) (Q := fun q => Outcome q) body_follows
    (fun _ _ _ _ _ _ => trivial) hrun call (List.mem_of_getElem? hc)
  rw [Machine.Activity.mode, Protocol.after_ofHistory] at hD
  cases hp : call.proc with
  | ret b => rw [hp] at hD; exact congrArg some (hD.2 a ha)
  | raise e => rw [hp] at hD; exact congrArg some (hD.2 a ha)
  | call o k =>
    rw [hp] at hD
    rcases hD.1 with ⟨-, hnil, -⟩ | ⟨-, hready⟩
    · rw [show call.hist = [] from hnil] at ha
      cases ha
    · exact (append_notMem hready a ha).elim

theorem created_iff (hrun : Library.Run (Step sha bus) (start sha bus file) ls c)
    {call : (machine (F := F) sha bus).Activity} (hc : c.calls[i]? = some call) :
    Created call ↔ call.proc.result = some (.ok true) :=
  ⟨result_of_append hrun hc, fun hr => (outcome_call hrun hc hr).1 true rfl⟩

theorem created_read {hist : History F} {p p' : Call F Bool}
    {x : Except Error (Op.Ret (F := F) .read)}
    (hcr : Created (⟨q, p', hist ++ [⟨.read, x⟩]⟩ : (machine (F := F) sha bus).Activity)) :
    Created (⟨q, p, hist⟩ : (machine (F := F) sha bus).Activity) := by
  rcases List.mem_append.mp hcr with hcr | hcr
  · exact hcr
  · cases List.mem_singleton.mp hcr

theorem step_cases (hb : isBlank bus.stream = false)
    (hrun : Library.Run (Step sha bus) (start sha bus file) ls c)
    {l : (machine (F := F) sha bus).Label} (hstep : Step sha bus c l = some c') :
    (c'.state = c.state ∧ ∀ (j : Nat) call', c'.calls[j]? = some call' → Created call' →
      ∃ call, c.calls[j]? = some call ∧ Created call ∧ call.request = call'.request) ∨
    ∃ (i : Nat) (call' : _) (r : Row), c'.calls[i]? = some call' ∧ Created call' ∧
      Entry (F := F) call'.request r ∧ c.state.findKey bus.stream call'.request.key = none ∧
      c'.state = c.state.record bus.stream r ∧
      ∀ j, j ≠ i → c'.calls[j]? = c.calls[j]? := by
  cases l with
  | start q =>
    refine .inl ⟨by rw [Machine.step_start hstep], fun j call' hj hcr => ?_⟩
    rcases Machine.call_step hstep hj with hj | ⟨q, -, rfl⟩ | ⟨w, q, o, k, h, hl, -⟩
    · exact ⟨call', hj, hcr, rfl⟩
    · cases hcr
    · cases hl
  | act i w =>
    obtain ⟨q, o, k, h, hact⟩ := Machine.step_act hstep
    have hother : ∀ j, j ≠ i → c'.calls[j]? = c.calls[j]? := by
      intro j hj
      rw [hact.result]
      exact List.getElem?_set_ne (Ne.symm hj)
    have hafter := hact.call_after
    have hsame : ∀ (j : Nat) call', c'.calls[j]? = some call' → Created call' →
        (j = i → Created (⟨q, .call o k, h⟩ : (machine (F := F) sha bus).Activity) ∧
          call'.request = q) →
        ∃ call, c.calls[j]? = some call ∧ Created call ∧ call.request = call'.request := by
      intro j call' hj hcr hi
      by_cases hij : j = i
      · obtain ⟨hcr, hq⟩ := hi hij
        exact ⟨_, hij ▸ hact.call, hcr, hq.symm⟩
      · exact ⟨call', (hother j hij) ▸ hj, hcr, rfl⟩
    rcases acts_allowed hrun hact with ⟨rfl, -⟩ | ⟨rfl, hready⟩
    · refine .inl ⟨?_, fun j call' hj hcr => hsame j call' hj hcr ?_⟩
      · rw [hact.result]
        exact exec_read w
      · rintro rfl
        obtain rfl := Option.some.inj (hj.symm.trans hafter)
        exact ⟨created_read hcr, rfl⟩
    · have happ := append_cases hb (sound_run hrun) q w
      have hstate : c'.state = (exec (F := F) sha bus q.append w c.state).2 := by rw [hact.result]
      have hcreated : ∀ call', c'.calls[i]? = some call' → Created call' →
          (exec (F := F) sha bus q.append w c.state).1 = .ok true := by
        intro call' hj hcr
        obtain rfl := Option.some.inj (hj.symm.trans hafter)
        rcases List.mem_append.mp hcr with hcr | hcr
        · exact (append_notMem hready _ hcr).elim
        · obtain ⟨-, hans⟩ := Event.mk.inj (List.mem_singleton.mp hcr)
          exact (eq_of_heq hans).symm
      generalize hans : (exec (F := F) sha bus q.append w c.state).1 = a at happ hcreated
      rw [← hstate] at happ
      have hno : a ≠ .ok true → ∀ (j : Nat) call', c'.calls[j]? = some call' → Created call' →
          ∃ call, c.calls[j]? = some call ∧ Created call ∧ call.request = call'.request :=
        fun ha j call' hj hcr => hsame j call' hj hcr fun hij =>
          (ha (hcreated call' (hij ▸ hj) hcr)).elim
      generalize hs' : c'.state = s' at happ
      cases happ with
      | fails | replays | conflicts => exact .inl ⟨rfl, hno (by rintro ⟨⟩)⟩
      | adds r hk hentry =>
        refine .inr ⟨i, _, r, hafter, ?_, hentry, hk, rfl, hother⟩
        refine List.mem_append_right _ (List.mem_singleton.mpr ?_)
        exact congrArg (fun a : Except Error Bool =>
          (⟨q.append, a⟩ : Event (sig F) Error)) hans.symm

/-- The stream and the calls tell the same: each entry was recorded by one call. -/
structure Accounted (c : Calls (F := F) sha bus) : Prop where
  written : ∀ (i : Nat) call, c.calls[i]? = some call → Created call →
    ∃ r ∈ c.state.rows bus.stream, Entry (F := F) call.request r
  origin : ∀ r ∈ c.state.rows bus.stream, ∃ (i : Nat) (call : _), c.calls[i]? = some call ∧
    Created call ∧ Entry (F := F) call.request r
  once : ∀ (i j : Nat) call call', c.calls[i]? = some call → c.calls[j]? = some call' →
    Created call → Created call' → call.request.key = call'.request.key → i = j

theorem created_mono {call : (machine (F := F) sha bus).Activity}
    (hrun : Library.Run (Step sha bus) c ls c') (hc : c.calls[i]? = some call)
    (hcr : Created call) :
    ∃ call', c'.calls[i]? = some call' ∧ Created call' ∧ call'.request = call.request := by
  obtain ⟨call', h', hc', hq, hh⟩ := Machine.call_of_run hrun hc
  refine ⟨call', hc', ?_, hq⟩
  rw [Created, hq, hh]
  exact List.mem_append_left _ hcr

theorem accounted_step (hb : isBlank bus.stream = false)
    (hrun : Library.Run (Step sha bus) (start sha bus file) ls c)
    {l : (machine (F := F) sha bus).Label} (hstep : Step sha bus c l = some c')
    (ha : Accounted c) : Accounted c' := by
  have hone : Library.Run (Step sha bus) c [l] c' := .tail .refl trivial hstep
  rcases step_cases hb hrun hstep with ⟨hstate, hback⟩ |
    ⟨i, new, r, hi, hnew, hentry, hk, hstate, hother⟩
  · refine ⟨fun j call' hj hcr => ?_, fun r hr => ?_,
      fun j j' call call' hj hj' hcr hcr' hkey => ?_⟩
    · obtain ⟨call, hc, hcr, hq⟩ := hback j call' hj hcr
      rw [hstate, ← hq]
      exact ha.written j call hc hcr
    · obtain ⟨j, call, hc, hcr, he⟩ := ha.origin r (hstate ▸ hr)
      obtain ⟨call', hc', hcr', hq⟩ := created_mono hone hc hcr
      exact ⟨j, call', hc', hcr', hq ▸ he⟩
    · obtain ⟨d, hd, hdcr, hq⟩ := hback j call hj hcr
      obtain ⟨d', hd', hdcr', hq'⟩ := hback j' call' hj' hcr'
      exact ha.once j j' d d' hd hd' hdcr hdcr' (by rw [hq, hq', hkey])
  · have hrows : c'.state.rows bus.stream = c.state.rows bus.stream ++ [r] := by
      rw [hstate, rows_record, if_pos rfl]
    have hfresh : ∀ j, j ≠ i → ∀ call, c'.calls[j]? = some call → Created call →
        call.request.key ≠ new.request.key := by
      intro j hj call hc hcr hkey
      obtain ⟨r', hr', he⟩ := ha.written j call (hother j hj ▸ hc) hcr
      exact findKey_none.mp hk r' hr' (he.key.trans hkey)
    refine ⟨fun j call hj hcr => ?_, fun r' hr' => ?_,
      fun j j' call call' hj hj' hcr hcr' hkey => ?_⟩
    · rw [hrows]
      by_cases hij : j = i
      · obtain rfl := Option.some.inj (hi.symm.trans (hij ▸ hj))
        exact ⟨r, by simp, hentry⟩
      · obtain ⟨r', hr', he⟩ := ha.written j call (hother j hij ▸ hj) hcr
        exact ⟨r', List.mem_append_left _ hr', he⟩
    · rw [hrows] at hr'
      rcases List.mem_append.mp hr' with hr' | hr'
      · obtain ⟨j, call, hc, hcr, he⟩ := ha.origin r' hr'
        obtain ⟨call', hc', hcr', hq⟩ := created_mono hone hc hcr
        exact ⟨j, call', hc', hcr', hq ▸ he⟩
      · rw [List.mem_singleton.mp hr']
        exact ⟨i, new, hi, hnew, hentry⟩
    · by_cases hji : j = i <;> by_cases hji' : j' = i
      · rw [hji, hji']
      · obtain rfl := Option.some.inj (hi.symm.trans (hji ▸ hj))
        exact (hfresh j' hji' call' hj' hcr' hkey.symm).elim
      · obtain rfl := Option.some.inj (hi.symm.trans (hji' ▸ hj'))
        exact (hfresh j hji call hj hcr hkey).elim
      · exact ha.once j j' call call' (hother j hji ▸ hj) (hother j' hji' ▸ hj') hcr hcr' hkey

theorem accounted_run (hb : isBlank bus.stream = false)
    (hrun : Library.Run (Step sha bus) (start sha bus file) ls c) : Accounted c := by
  induction hrun with
  | refl =>
    refine ⟨fun i call hc => by simp [Machine.initial] at hc, fun r hr => ?_,
      fun i j call call' hc =>
      by simp [Machine.initial] at hc⟩
    rw [show (start sha bus file).state.rows bus.stream = [] from file.unused] at hr
    cases hr
  | tail hp _ hs ih => exact accounted_step hb hp hs ih

theorem eq_of_entries {m m' : Message} {t d t' d' : String} {r : Row}
    (h : Entry (F := F) (.enqueue m t d) r) (h' : Entry (F := F) (.enqueue m' t' d') r) :
    m = m' := stored_injective (F := F) (h.body.symm.trans h'.body)

theorem enqueue_of_key {q : Request} {id : String} (h : q.key = messageKey id) :
    ∃ m t d, q = .enqueue m t d ∧ m.messageId = id := by
  cases q with
  | enqueue m t d => exact ⟨m, t, d, rfl, messageKey_injective h⟩
  | ack id' recipient => exact (messageKey_ne_ackKey _ _ _ h.symm).elim

theorem stream_findKey (hs : Sound F sha db) {r : Row} (hr : r ∈ db.rows bus.stream)
    {key : String} (hk : r.key = key) : db.findKey bus.stream key = some r := hk ▸ hs.findKey hr

theorem performs_append (hb : isBlank bus.stream = false)
    (hrun : Library.Run (Step sha bus) (start sha bus file) ls c)
    {call : (machine (F := F) sha bus).Activity} (hc : c.calls[i]? = some call)
    {b : Bool} (hr : call.proc.result = some (.ok b)) :
    ∃ ls₁ w c₁ c₂ h, Machine.Performs file.db ls c i call.request h
        ⟨call.request.append, .ok b⟩ ls₁ w c₁ c₂ ∧ Ready call.request h ∧
      Appends (F := F) bus.stream call.request c₁.state w (.ok b) c₂.state := by
  obtain ⟨h, h', hh⟩ := List.append_of_mem ((outcome_call hrun hc hr).1 b rfl)
  obtain ⟨ls₁, w, c₁, c₂, hper⟩ := Machine.performs_of_hist hrun hc hh
  obtain ⟨k, hact⟩ := hper.acts
  refine ⟨ls₁, w, c₁, c₂, h, hper, ?_, ?_⟩
  · rcases acts_allowed hper.before hact with ⟨ho, -⟩ | ⟨-, hready⟩
    · cases ho
    · exact hready
  · have happ := append_cases hb (sound_run hper.before) call.request w
    rw [show (exec (F := F) sha bus call.request.append w c₁.state).1 = .ok b from
      hper.answer] at happ
    rw [hact.result]
    exact happ

theorem original (hb : isBlank bus.stream = false)
    (hrun : Library.Run (Step sha bus) (start sha bus file) ls c)
    {call : (machine (F := F) sha bus).Activity} (hc : c.calls[i]? = some call)
    {m : Message} {t d : String} (hq : call.request = .enqueue m t d) {b : Bool}
    (hr : call.proc.result = some (.ok b)) :
    ∃ (j : Nat) (call' : _) (t' d' : String), c.calls[j]? = some call' ∧
      call'.request = .enqueue m t' d' ∧ call'.proc.result = some (.ok true) := by
  cases b with
  | true => exact ⟨i, call, t, d, hc, hq, hr⟩
  | false =>
    obtain ⟨ls₁, w, c₁, c₂, h, hper, -, happ⟩ := performs_append hb hrun hc hr
    obtain ⟨ls₂, -, h₂⟩ := hper.split
    obtain ⟨k, hact⟩ := hper.acts
    generalize hs₂ : c₂.state = s₂ at happ
    cases happ with
    | replays r hk hentry =>
      obtain ⟨j, call₁, hc₁, hcr, he⟩ := (accounted_run hb hper.before).origin r (findKey_some hk).1
      have hall : Library.Run (Step sha bus) c₁ (.act i false :: ls₂) c :=
        (Library.Path.tail .refl trivial hact.isStep).trans h₂
      obtain ⟨call', hc', hcr', hq'⟩ := created_mono hall hc₁ hcr
      obtain ⟨m', t', d', hq₁, -⟩ :=
        enqueue_of_key (he.key.symm.trans (hentry.key.trans (congrArg Request.key hq)))
      obtain rfl := eq_of_entries (hq ▸ hentry) (hq₁ ▸ he)
      exact ⟨j, call', t', d', hc', hq'.trans hq₁, (created_iff hrun hc').mp hcr'⟩

theorem enqueued_once (hb : isBlank bus.stream = false)
    (hrun : Library.Run (Step sha bus) (start sha bus file) ls c)
    {call call' : (machine (F := F) sha bus).Activity} (hc : c.calls[i]? = some call)
    (hc' : c.calls[j]? = some call') (hr : call.proc.result = some (.ok true))
    (hr' : call'.proc.result = some (.ok true)) (hkey : call.request.key = call'.request.key) :
    i = j :=
  (accounted_run hb hrun).once i j call call' hc hc' ((created_iff hrun hc).mpr hr)
    ((created_iff hrun hc').mpr hr') hkey

theorem replay_step (hb : isBlank bus.stream = false)
    (hrun : Library.Run (Step sha bus) (start sha bus file) ls c)
    {call₀ : (machine (F := F) sha bus).Activity} (hc₀ : c.calls[j]? = some call₀) {m₀ m : Message}
    {t₀ d₀ t d : String} (hq₀ : call₀.request = .enqueue m₀ t₀ d₀)
    (hr₀ : call₀.proc.result = some (.ok true)) {call : (machine (F := F) sha bus).Activity}
    (hc : c.calls[i]? = some call) (hq : call.request = .enqueue m t d)
    (hid : m.messageId = m₀.messageId) (hstep : Step sha bus c (.act i w) = some c') :
    c'.state = c.state ∧ ∃ call', c'.calls[i]? = some call' ∧ call'.proc.result =
      some (if w then .error (.ledger .operational) else if m = m₀ then .ok false
        else .error (.ledger
          (.replayConflict "idempotency key reused for a different event"))) := by
  obtain ⟨q, o, k, h, hact⟩ := Machine.step_act hstep
  obtain rfl := Option.some.inj (hc.symm.trans hact.call)
  obtain rfl : q = .enqueue m t d := hq
  have ho : o = Request.append (.enqueue m t d) := by
    rcases acts_allowed hrun hact with ⟨-, -, _, _, hq⟩ | ⟨ho, -⟩
    · cases hq
    · exact ho
  subst ho
  obtain ⟨r, hr, hentry⟩ := (accounted_run hb hrun).written j call₀ hc₀
    ((created_iff hrun hc₀).mpr hr₀)
  rw [hq₀] at hentry
  have hkey : Request.key (.enqueue m t d) = Request.key (.enqueue m₀ t₀ d₀) :=
    congrArg messageKey hid
  have hfind : c.state.findKey bus.stream (Request.key (.enqueue m t d)) = some r :=
    stream_findKey (sound_run hrun) hr (hentry.key.trans hkey.symm)
  have happ := append_cases hb (sound_run hrun) (.enqueue m t d) w
  have hstate :
    c'.state = (exec (F := F) sha bus (Request.append (.enqueue m t d)) w c.state).2 := by
    rw [hact.result]
  have hres := result_of_append (hrun.tail trivial hstep) hact.call_after
    (List.mem_append_right _ (List.mem_singleton.mpr rfl))
  change _ = some (exec (F := F) sha bus (Request.append (.enqueue m t d)) w c.state).1 at hres
  suffices hgoal : c'.state = c.state ∧
      (exec (F := F) sha bus (Request.append (.enqueue m t d)) w c.state).1 =
        if w then .error (.ledger .operational) else if m = m₀ then .ok false
          else .error (.ledger
            (.replayConflict "idempotency key reused for a different event")) from
    ⟨hgoal.1, _, hact.call_after, hres.trans (congrArg some hgoal.2)⟩
  rw [← hstate] at happ
  generalize (exec (F := F) sha bus (Request.append (.enqueue m t d)) w c.state).1 = a at happ ⊢
  generalize c'.state = s' at happ ⊢
  cases happ with
  | fails => exact ⟨rfl, rfl⟩
  | adds r' hk => cases hk.symm.trans hfind
  | replays r' hk hentry' =>
    obtain rfl := Option.some.inj (hk.symm.trans hfind)
    exact ⟨rfl, (if_pos (eq_of_entries hentry' hentry)).symm⟩
  | conflicts r' hk hne =>
    obtain rfl := Option.some.inj (hk.symm.trans hfind)
    refine ⟨rfl, (if_neg ?_).symm⟩
    rintro rfl
    exact hne ⟨hentry.key, hentry.kind, hentry.body⟩

theorem item_of_entry {r : Row} (hentry : Entry (F := F) q r) (hd : q.payload.keys.Nodup)
    {x : AuditEvent F} (hx : toEvent bus.stream r = .ok x) {key s : String}
    (h : item x.payload key = .ok (.str s)) : q.payload.get? key = some s := by
  obtain ⟨members, hmembers, hget⟩ := sortKeys_ofDict (F := F) hd
  rw [toEvent, hentry.body, loads_canonical (wf_ofDict hd)] at hx
  obtain rfl := Except.ok.inj hx
  rw [hmembers, item, Json.members] at h
  dsimp only at h
  rw [hget] at h
  cases hq : q.payload.get? key with
  | none => rw [hq] at h; cases h
  | some t =>
    rw [hq] at h
    exact congrArg some (Json.str.inj (Except.ok.inj h))

theorem read_ok_mem (hs : Sound F sha db) {events : List (AuditEvent F)}
    (hr : (exec (F := F) sha bus .read w db).1 = .ok events) {x : AuditEvent F} (hx : x ∈ events) :
    ∃ r ∈ db.rows bus.stream, toEvent bus.stream r = .ok x := by
  obtain ⟨events', hread, hback, -⟩ := hs.read_ok bus.stream
  rw [exec] at hr
  split at hr
  · cases hr
  · rw [run, hread] at hr
    obtain rfl := Except.ok.inj hr
    exact hback x hx

/-- An acknowledgement that answers `True` has read that the message was enqueued for its
recipient. -/
theorem acknowledged (hb : isBlank bus.stream = false)
    (hrun : Library.Run (Step sha bus) (start sha bus file) ls c)
    {call : (machine (F := F) sha bus).Activity} (hc : c.calls[i]? = some call)
    {id recipient : String} (hq : call.request = .ack id recipient) {b : Bool}
    (hr : call.proc.result = some (.ok b)) :
    ∃ ls₁ w ls₂ c₁, ls = ls₁ ++ .act i w :: ls₂ ∧
      Library.Run (Step sha bus) (start sha bus file) ls₁ c₁ ∧
      ∃ (j : Nat) (call' : _) (m : Message) (t d : String), c₁.calls[j]? = some call' ∧
        call'.request = .enqueue m t d ∧ call'.proc.result = some (.ok true) ∧
        m.messageId = id ∧ m.toPrincipal = recipient := by
  obtain ⟨ls₁, w, c₁, c₂, h, hper, hready, -⟩ := performs_append hb hrun hc hr
  rw [hq] at hready
  obtain ⟨events, rfl, x, hx, htype, hid, hto⟩ := hready
  obtain ⟨h', hh⟩ := hper.recorded hc
  have hhist : call.hist = [] ++ ⟨.read, .ok events⟩ :: ⟨call.request.append, .ok b⟩ :: h' := hh
  obtain ⟨ls₃, w₃, c₃, c₄, hread⟩ := Machine.performs_of_hist hrun hc hhist
  obtain ⟨ls₄, hsplit, -⟩ := hread.split
  obtain ⟨r, hrow, hev⟩ := read_ok_mem (sound_run hread.before) hread.answer hx
  obtain ⟨j, call', hc', hcr, hentry⟩ := (accounted_run hb hread.before).origin r hrow
  refine ⟨ls₃, w₃, ls₄, c₃, hsplit, hread.before, j, call', ?_⟩
  have hkind : call'.request.kind = "MESSAGE_QUEUED" :=
    hentry.kind.symm.trans ((toEvent_kind hev).symm.trans htype)
  cases hreq : call'.request with
  | ack => rw [hreq] at hkind; exact absurd hkind (by simp [Request.kind])
  | enqueue m t d =>
    rw [hreq] at hentry
    refine ⟨m, t, d, hc', rfl, (created_iff hread.before hc').mp hcr, ?_, ?_⟩
    · simpa [Request.payload, fields, Dict.get?_cons] using
        item_of_entry hentry (fields_nodup m) hev hid
    · simpa [Request.payload, fields, Dict.get?_cons] using
        item_of_entry hentry (fields_nodup m) hev hto

end Runs

/-! ## The bus and the registry in memory -/

section Agreement

inductive Reply | accepted | duplicate | denied | rejected
  deriving DecidableEq

def busReply : Except Error Bool → Reply
  | .ok true => .accepted
  | .ok false => .duplicate
  | .error (.permission _) => .denied
  | .error _ => .rejected

def registryReply : Except Domain.Error Bool → Reply
  | .ok true => .accepted
  | .ok false => .duplicate
  | .error (.permission _) => .denied
  | .error _ => .rejected

/-- A message, and the task and the dispatch that are active when it comes in. -/
structure Submission where
  message : Message
  taskId : String
  dispatchId : String
  deriving DecidableEq

variable {F : Type} [FloatText F] {sha : String → String} {bus : DurableMessageBus} {db : Db}

variable (F sha bus) in
def enqueueAlone (x : Submission) (db : Db) : Reply × Db :=
  ((enqueue x.message x.taskId x.dispatchId : Call F Bool).solo (run sha bus) db).map busReply id

def recordAlone (x : Submission) (reg : MessageRegistry) : Reply × MessageRegistry :=
  (atomically (fun reg => reg.record x.message x.taskId x.dispatchId) reg).map registryReply id

variable (F sha bus) in
structure Mirrors (db : Db) (reg : MessageRegistry) : Prop where
  sound : Sound F sha db
  known : ∀ id m, reg.recorded.get? id = some m → m.messageId = id ∧
    ∃ r, db.findKey bus.stream (messageKey id) = some r ∧ Entry (F := F) (.enqueue m "" "") r
  unknown : ∀ id, reg.recorded.get? id = none → db.findKey bus.stream (messageKey id) = none

theorem mirrors_fresh (file : Fresh F sha bus.stream) :
    Mirrors F sha bus file.db MessageRegistry.empty where
  sound := file.sound
  known := by rintro id m ⟨⟩
  unknown id _ := findKey_none.mpr (by simp [file.unused])

theorem findKey_record {r : Row} {stream key : String} :
    (db.record stream r).findKey stream key =
      (db.findKey stream key).or (if r.key = key then some r else none) := by
  rw [Db.findKey, rows_record, if_pos rfl, List.find?_append, List.find?_singleton]
  simp [Db.findKey]

theorem enqueueAlone_eq (x : Submission) (db : Db) : enqueueAlone F sha bus x db =
    if ¬ (x.message.taskId = x.taskId ∧ x.message.dispatchId = x.dispatchId) then (.denied, db)
    else if ¬ (x.message.fromPrincipal ≠ "*" ∧ x.message.toPrincipal ≠ "*") then (.denied, db)
    else if ¬ x.message.payload.utf8ByteSize ≤ 65536 then (.rejected, db)
    else (exec (F := F) sha bus (Request.append (.enqueue x.message "" "")) false db).map
      busReply id := by
  simp only [enqueueAlone, enqueue, Proc.bind_eq, Proc.solo_require_bind]
  split_ifs <;> first | rfl | (rw [perform, Proc.solo_op]; rfl)

theorem recordAlone_eq (x : Submission) (reg : MessageRegistry) : recordAlone x reg =
    if ¬ (x.message.taskId = x.taskId ∧ x.message.dispatchId = x.dispatchId) then (.denied, reg)
    else if ¬ (x.message.fromPrincipal ≠ "*" ∧ x.message.toPrincipal ≠ "*") then (.denied, reg)
    else match reg.recorded.get? x.message.messageId with
      | some known => (if known = x.message then .duplicate else .rejected, reg)
      | none => (.accepted, ⟨reg.recorded.set x.message.messageId x.message⟩) := by
  rw [recordAlone, atomically]
  by_cases h₁ : x.message.taskId = x.taskId ∧ x.message.dispatchId = x.dispatchId
  swap
  · simp [MessageRegistry.record, Library.require, h₁, bind, Except.bind, registryReply]
  by_cases h₂ : x.message.fromPrincipal ≠ "*" ∧ x.message.toPrincipal ≠ "*"
  swap
  · have h₂' : ¬ (x.message.toPrincipal ≠ "*" ∧ x.message.fromPrincipal ≠ "*") := fun h => h₂ h.symm
    simp [MessageRegistry.record, Library.require, h₁, h₂, h₂', bind, Except.bind, registryReply]
  have h₂' : x.message.toPrincipal ≠ "*" ∧ x.message.fromPrincipal ≠ "*" := h₂.symm
  cases hk : reg.recorded.get? x.message.messageId with
  | none =>
    simp [MessageRegistry.record, Library.require, h₁, h₂', bind, Except.bind, pure,
      Except.pure, hk,
      registryReply]
  | some known =>
    by_cases heq : known = x.message <;>
      simp [MessageRegistry.record, Library.require, h₁, h₂', bind, Except.bind, pure, Except.pure,
        hk, heq, registryReply]

theorem Mirrors.accept {reg : MessageRegistry} (hm : Mirrors F sha bus db reg) {m : Message}
    {db' : Db} {r : Row} (hs : Sound F sha db') (hdb : db' = db.record bus.stream r)
    (hentry : Entry (F := F) (.enqueue m "" "") r)
    (hnew : reg.recorded.get? m.messageId = none) :
    Mirrors F sha bus db' ⟨reg.recorded.set m.messageId m⟩ := by
  subst hdb
  have hkey : r.key = messageKey m.messageId := hentry.key
  refine ⟨hs, fun id m' hm' => ?_, fun id hid => ?_⟩
  · rw [findKey_record]
    rw [Dict.get?_set] at hm'
    split at hm'
    next hid =>
      obtain rfl := Option.some.inj hm'
      subst hid
      rw [hm.unknown _ hnew, if_pos hkey]
      exact ⟨rfl, r, rfl, hentry⟩
    next =>
      obtain ⟨hid, r', hr', he⟩ := hm.known id m' hm'
      exact ⟨hid, r', by rw [hr', Option.some_or], he⟩
  · rw [Dict.get?_set] at hid
    split at hid
    · cases hid
    next hne =>
      rw [findKey_record, hm.unknown id hid, Option.none_or, if_neg]
      exact fun h => hne (messageKey_injective (hkey.symm.trans h))

theorem lockstep (hb : isBlank bus.stream = false) {x : Submission}
    (hx : x.message.payload.utf8ByteSize ≤ 65536) {reg : MessageRegistry}
    (hm : Mirrors F sha bus db reg) :
    (recordAlone x reg).1 = (enqueueAlone F sha bus x db).1 ∧
      Mirrors F sha bus (enqueueAlone F sha bus x db).2 (recordAlone x reg).2 := by
  rw [recordAlone_eq, enqueueAlone_eq]
  split
  · exact ⟨rfl, hm⟩
  split
  · exact ⟨rfl, hm⟩
  have happ := append_cases hb hm.sound (.enqueue x.message "" "") false
  have hsound : Sound F sha
      (exec (F := F) sha bus (Request.append (.enqueue x.message "" "")) false db).2 := by
    rcases exec_append hm.sound (.enqueue x.message "" "") false with
      ⟨h, -⟩ | ⟨-, r, db', happ, he⟩
    · cases h
    · rw [he]
      exact happ.sound hm.sound
  generalize exec (F := F) sha bus (Request.append (.enqueue x.message "" "")) false db = y
    at happ hsound ⊢
  obtain ⟨a, db'⟩ := y
  cases hk : reg.recorded.get? x.message.messageId with
  | none =>
    have hfind := hm.unknown _ hk
    cases happ with
    | adds r _ hentry => exact ⟨rfl, hm.accept hsound rfl hentry hk⟩
    | replays r hr => cases hr.symm.trans hfind
    | conflicts r hr => cases hr.symm.trans hfind
  | some known =>
    obtain ⟨hid, r', hfind, hentry'⟩ := hm.known _ _ hk
    cases happ with
    | adds r hnone => cases hnone.symm.trans hfind
    | replays r hr hentry =>
      obtain rfl := Option.some.inj (hr.symm.trans hfind)
      obtain rfl := eq_of_entries hentry' hentry
      exact ⟨if_pos rfl, hm⟩
    | conflicts r hr hne =>
      obtain rfl := Option.some.inj (hr.symm.trans hfind)
      refine ⟨if_neg ?_, hm⟩
      rintro rfl
      exact hne hentry'

theorem answers_agree (hb : isBlank bus.stream = false) (file : Fresh F sha bus.stream)
    {xs : List Submission} (hxs : ∀ x ∈ xs, x.message.payload.utf8ByteSize ≤ 65536) :
    answers recordAlone MessageRegistry.empty xs = answers (enqueueAlone F sha bus) file.db xs :=
  (answers_eq (R := Mirrors F sha bus) (fun x hx _ _ hm => lockstep hb (hxs x hx) hm)
    (mirrors_fresh file)).trans (List.map_id _)

end Agreement

/-! ## Exactly once -/

section Delivery

variable {F : Type} [FloatText F] {sha : String → String} {bus : DurableMessageBus}

structure DeliveredOnce (file : Fresh F sha bus.stream)
    (ls : List (machine (F := F) sha bus).Label) (c : Calls (F := F) sha bus) : Prop where
  enqueuedOnce : ∀ (i j : Nat) call call' m t d m' t' d', c.calls[i]? = some call →
    c.calls[j]? = some call' → call.request = .enqueue m t d → call'.request = .enqueue m' t' d' →
    m.messageId = m'.messageId → call.proc.result = some (.ok true) →
    call'.proc.result = some (.ok true) → i = j
  originals : ∀ (i : Nat) call m t d b, c.calls[i]? = some call → call.request = .enqueue m t d →
    call.proc.result = some (.ok b) → ∃ (j : Nat) (call' : _) (t' d' : String),
      c.calls[j]? = some call' ∧ call'.request = .enqueue m t' d' ∧
      call'.proc.result = some (.ok true)
  replays : ∀ (i j : Nat) call call₀ m t d m₀ t₀ d₀, c.calls[j]? = some call₀ →
    call₀.request = .enqueue m₀ t₀ d₀ → call₀.proc.result = some (.ok true) →
    c.calls[i]? = some call → call.request = .enqueue m t d → m.messageId = m₀.messageId →
    ∀ w c', Step sha bus c (.act i w) = some c' →
      c'.state = c.state ∧ ∃ call', c'.calls[i]? = some call' ∧ call'.proc.result =
        some (if w then .error (.ledger .operational) else if m = m₀ then .ok false
          else .error (.ledger (.replayConflict "idempotency key reused for a different event")))
  acknowledged : ∀ (i : Nat) call id recipient b, c.calls[i]? = some call →
    call.request = .ack id recipient → call.proc.result = some (.ok b) →
    ∃ ls₁ w ls₂ c₁, ls = ls₁ ++ .act i w :: ls₂ ∧
      Library.Run (Step sha bus) (start sha bus file) ls₁ c₁ ∧
      ∃ (j : Nat) (call' : _) (m : Message) (t d : String), c₁.calls[j]? = some call' ∧
        call'.request = .enqueue m t d ∧ call'.proc.result = some (.ok true) ∧
        m.messageId = id ∧ m.toPrincipal = recipient
  acknowledgedOnce : ∀ (i j : Nat) call call' id recipient recipient', c.calls[i]? = some call →
    c.calls[j]? = some call' → call.request = .ack id recipient →
    call'.request = .ack id recipient' → call.proc.result = some (.ok true) →
    call'.proc.result = some (.ok true) → i = j

theorem created_later {file : Fresh F sha bus.stream}
    {ls ls₁ ls₂ : List (machine (F := F) sha bus).Label} {l : (machine (F := F) sha bus).Label}
    {c c₁ : Calls (F := F) sha bus} (hrun : Library.Run (Step sha bus) (start sha bus file) ls c)
    (hls : ls = ls₁ ++ l :: ls₂) (h₁ : Library.Run (Step sha bus) (start sha bus file) ls₁ c₁)
    {k : Nat} {d : (machine (F := F) sha bus).Activity} (hd : c₁.calls[k]? = some d)
    (hdr : d.proc.result = some (.ok true)) :
    ∃ e, c.calls[k]? = some e ∧ Created e ∧ e.request = d.request := by
  subst hls
  obtain ⟨c₂, h₂, h₃⟩ := hrun.split
  obtain rfl := h₁.unique h₂
  exact created_mono h₃ hd ((created_iff h₁ hd).mpr hdr)

theorem acknowledged_once (hb : isBlank bus.stream = false) {file : Fresh F sha bus.stream}
    {ls : List (machine (F := F) sha bus).Label} {c : Calls (F := F) sha bus}
    (hrun : Library.Run (Step sha bus) (start sha bus file) ls c) {i j : Nat}
    {call call' : (machine (F := F) sha bus).Activity} {id recipient recipient' : String}
    (hc : c.calls[i]? = some call) (hc' : c.calls[j]? = some call')
    (hq : call.request = .ack id recipient) (hq' : call'.request = .ack id recipient')
    (hr : call.proc.result = some (.ok true)) (hr' : call'.proc.result = some (.ok true)) :
    i = j := by
  obtain ⟨ls₁, w, ls₂, c₁, hls, h₁, k, d, m, t, s, hd, hdq, hdr, hid, hto⟩ :=
    acknowledged hb hrun hc hq hr
  obtain ⟨ls₁', w', ls₂', c₁', hls', h₁', k', d', m', t', s', hd', hdq', hdr', hid', hto'⟩ :=
    acknowledged hb hrun hc' hq' hr'
  -- both have seen an original of the one message, so they name one recipient
  obtain ⟨e, he, hcr, heq⟩ := created_later hrun hls h₁ hd hdr
  obtain ⟨e', he', hcr', heq'⟩ := created_later hrun hls' h₁' hd' hdr'
  have ha := accounted_run hb hrun
  obtain rfl : k = k' := ha.once k k' e e' he he' hcr hcr'
    (by rw [heq, heq', hdq, hdq']; exact congrArg messageKey (hid.trans hid'.symm))
  obtain rfl := Option.some.inj (he.symm.trans he')
  obtain ⟨rfl, -, -⟩ := Request.enqueue.inj (hdq.symm.trans (heq.symm.trans (heq'.trans hdq')))
  obtain rfl : recipient = recipient' := hto.symm.trans hto'
  exact enqueued_once hb hrun hc hc' hr hr' (by rw [hq, hq'])

end Delivery

/-! ## Ids with colons -/

section Colons

def runBus : DurableMessageBus := ⟨"run", by decide⟩

def runFile (bus : DurableMessageBus) : Fresh Empty (fun _ => "digest") bus.stream :=
  ⟨.empty, sound_empty, rfl⟩

def greeting (id recipient : String) (hid : Domain.Identity id)
    (hrecipient : Domain.Identity recipient) : Message where
  messageId := id
  fromPrincipal := "alice"
  toPrincipal := recipient
  taskId := "t"
  dispatchId := "d"
  payload := "hello"
  ids := ⟨hid, by decide +kernel, hrecipient, by decide +kernel, by decide +kernel⟩

def toC : Message := greeting "a:b" "c" (by decide +kernel) (by decide +kernel)

def toBC : Message := greeting "a" "b:c" (by decide +kernel) (by decide +kernel)

/-- Two messages whose ids and recipients make the same text, and their acknowledgements. -/
def deliveries : List (machine (F := Empty) (fun _ => "digest") runBus).Label :=
  [.start (.enqueue toC "t" "d"), .start (.enqueue toBC "t" "d"), .act 1 false, .act 0 false,
    .start (.ack "a:b" "c"), .start (.ack "a" "b:c"), .act 2 false, .act 3 false, .act 3 false,
    .act 2 false]

end Colons

end SubagentBridge.Messaging
