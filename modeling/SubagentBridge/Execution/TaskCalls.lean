import SubagentBridge.Execution.TaskClaims

/-! Every call keeps to the discipline. -/

namespace SubagentBridge.WorkerProcess

open Library Domain

variable {F : Type} {m : Mode} {workerId taskId : String} {α : Type}

/-! ## Sending and collecting -/

structure Sending (workerId taskId : String) (n : Nat) (m : Mode) : Prop where
  role : m.role = .send workerId taskId
  target : m.target = some (some n)
  polled : m.polled = some false
  wrote : m.wrote = .none
  inLock : m.inLock = false
  claim : m.claim = .none

theorem quiet_storeTokens (tokens : Int) : (storeTokens (F := F) workerId tokens).Only Quiet :=
  quiet_updateSession _

def Ending (workerId : String) (m : Mode) : Prop :=
  ((∃ t, m.role = .send workerId t) ∨ ∃ t, m.role = .collect workerId t) ∧
    (m.claim = .refused ∨ m.claim = .taken)

theorem follows_release (hm : Ending workerId m) :
    (release (F := F) workerId).Follows (discipline F)
    (fun m' _ => m'.inLock = m.inLock ∧ m'.role = m.role) m := by
  refine follows_perform ?_ (fun _ _ => ?_) fun e _ => ⟨rfl, rfl⟩
  · obtain ⟨⟨t, hr⟩ | ⟨t, hr⟩, hc⟩ := hm
    · simpa [Mode.Allows, hr] using hc
    · simpa [Mode.Allows, hr] using hc
  · apply (Quiet.follows (quiet_perform (by rfl))).mono
    rintro m' r rfl
    exact ⟨rfl, rfl⟩

def Admitted (m : Mode) : Mode → Except Error Bool → Prop
  | m', .ok true => m' = { m with claim := .held }
  | m', _ => m'.inLock = false

theorem follows_admitTask {n r : Nat} (hm : Sending workerId taskId n m) :
    (admitTask (F := F) workerId taskId r).Follows (discipline F) (Admitted m) m := by
  -- under the lock
  have hbody : ∀ m' (x : Except Error Bool), (m'.inLock = true ∧
      (x = .ok true → m' = { m with inLock := true, claim := .held })) →
      m'.inLock = true ∧ Admitted m m'.leave x := by
    rintro m' x ⟨hl, hx⟩
    refine ⟨hl, ?_⟩
    cases x with
    | error e => rfl
    | ok b => cases b with
      | false => rfl
      | true =>
        rw [hx rfl]
        simp [Admitted, Mode.leave, hm.inLock]
  apply follows_locked hm.inLock (by simp [hm.role]) ?_ hbody fun e => hm.inLock
  refine follows_perform (fun _ => by rw [hm.role]; rfl)
    (fun busy _ => ?_) fun e _ => ⟨rfl, by simp⟩
  rw [Mode.next, if_pos ⟨rfl, hm.claim⟩]
  cases busy with
  | true => exact ⟨rfl, by simp⟩
  | false =>
    apply follows_quiet (by rfl) (fun record => ?_) fun e => ⟨rfl, by simp⟩
    simp only [Bool.false_eq_true, if_false, Proc.bind_eq, Proc.pure_eq]
    split
    next => exact ⟨rfl, by simp⟩
    next =>
      refine follows_perform ⟨⟨taskId, hm.role⟩, rfl, rfl⟩ (fun _ _ => ?_) fun e _ => ⟨rfl, by simp⟩
      exact follows_quiet (by rfl) (fun _ => ⟨rfl, fun _ => rfl⟩) fun e => ⟨rfl, by simp⟩

/-- After the write the claim is with the process, or it is given up, or kept for good. -/
def Written (m : Mode) : Mode → Except Error (Option Error) → Prop
  | m', .ok none => ∃ n, m.target = some (some n) ∧ m' = { m with wrote := some n, claim := .sent }
  | m', _ => m'.inLock = false

theorem follows_writeTask (payload : Payload F) {n : Nat} (hr : m.role = .send workerId taskId)
    (ht : m.target = some (some n)) (hw : m.wrote = none) (hl : m.inLock = false)
    (hc : m.claim = .held) :
    (writeTask workerId taskId payload n).Follows (discipline F) (Written m) m := by
  apply Proc.Follows.tryCatch (M := fun m' (x : Except Error (Option Error)) => match x with
    | .ok o => o = none ∧ m' = { m with wrote := some n, claim := .sent }
    | .error e => m' = { m with claim := .refused } ∨ e.kind = .type ∧ m' = m)
  · cases dumps payload with
    | none => exact .inr ⟨rfl, rfl⟩
    | some fields =>
      exact follows_perform ⟨⟨workerId, hr⟩, hc, ht, hw⟩ (fun _ _ => ⟨rfl, rfl⟩) fun e _ =>
        .inl rfl
  · rintro m' o ⟨rfl, rfl⟩
    exact ⟨n, ht, rfl⟩
  · intro m' e he
    split
    next hos =>
      obtain rfl | ⟨hk, -⟩ := he
      · have hrelease := follows_release (F := F) (m := { m with claim := .refused })
          ⟨.inl ⟨taskId, hr⟩, .inl rfl⟩
        apply hrelease.bind
        · rintro m' a ⟨hl', -⟩
          exact hl'.trans hl
        · rintro m' e ⟨hl', -⟩
          exact hl'.trans hl
      · rw [hk] at hos
        cases hos
    next =>
      obtain rfl | ⟨-, rfl⟩ := he
      · exact hl
      · exact hl

section Settling

variable {B : Builtins F}

theorem follows_settle (event : Reply F) (store : Int → Call F Unit)
    (hrole : (∃ t, m.role = .send workerId t) ∨ ∃ t, m.role = .collect workerId t)
    (hm : m.inLock = false) (hc : m.claim = .taken) (hstore : ∀ tokens, (store tokens).Only Quiet) :
    (settle B workerId event store).Follows (discipline F) Unlocked m := by
  have hswitch : (∃ w, m.role = .switch w) → m.target = none ∧ m.dropped = [] := by
    rintro ⟨w, hw⟩
    obtain ⟨t, hr⟩ | ⟨t, hr⟩ := hrole
    · rw [hr] at hw
      cases hw
    · rw [hr] at hw
      cases hw
  apply follows_locked (M := fun m' _ => m'.inLock = true) hm hswitch ?_
    (fun m' x hl => ⟨hl, rfl⟩) fun e => hm
  have hrest : (release (F := F) workerId).Follows (discipline F) (fun m' _ => m'.inLock = true)
      { m with inLock := true } := by
    apply (follows_release (m := { m with inLock := true }) ⟨hrole, .inr hc⟩).mono
    rintro m' x ⟨hl, -⟩
    exact hl
  split
  next => exact hrest
  next v =>
    apply Quiet.follows_bind (Proc.Only.bind _ hstore) (fun _ => hrest) fun e => rfl
    rw [intOf]
    split <;> trivial

end Settling

section Tasks

variable [FloatArith F] {B : Builtins F} {payload : Payload F} {timeout : F} {n r : Nat}

theorem quiet_authorize {record : WorkerProcessRecord F} :
    (authorize B workerId taskId record payload).Only Quiet := by
  rw [authorize]
  split
  next => trivial
  next =>
    apply quiet_bind (by rfl)
    rintro ⟨valid, reason, ticket⟩
    cases valid <;> cases ticket <;> trivial

omit [FloatArith F] in
theorem follows_unavailable {record : WorkerProcessRecord F} {Q : Mode → Except Error α → Prop}
    {f : Bool → Call F α} (hm : m.inLock = false) (hok : ∀ b, (f b).Follows (discipline F) Q m)
    (herr : ∀ e, Q m (.error e)) :
    ((unavailable workerId record).bind f).Follows (discipline F) Q m := by
  rw [unavailable]
  split
  next => exact hok true
  next =>
    refine follows_perform (fun h => by rw [hm] at h; cases h) (fun busy _ => ?_) fun e _ => herr e
    rw [Mode.next, if_neg (by simp [hm])]
    exact hok busy

omit [FloatArith F] in
theorem follows_awaitResult {k : Nat} (hr : m.role = .send workerId taskId)
    (ht : m.target = some (some n)) (hp : m.polled = some false) (hk : m.reader = some (some k))
    (hw : m.wrote = some n) (hl : m.inLock = false) (hc : m.claim = .sent) :
    (awaitResult B workerId taskId timeout k r).Follows (discipline F) Unlocked m := by
  refine follows_perform ⟨hk, hp, n, ht, .inl ⟨⟨workerId, hr⟩, hc, hw⟩⟩ (fun event _ => ?_)
    fun e _ => hl
  cases event with
  | none => exact Quiet.unlocked (quiet_bind (by rfl) fun _ => trivial) hl
  | some event =>
    have hsettle := follows_settle (m := { m with claim := .taken }) (B := B) event
      (fun tokens => do
        perform (.setTokens r tokens)
        let record ← perform (.record r)
        storeTokens workerId record.tokensConsumed) (.inl ⟨taskId, hr⟩) hl rfl fun tokens =>
      quiet_bind (by rfl) fun _ => quiet_bind (by rfl) fun _ => quiet_storeTokens _
    exact hsettle.bind (fun m' _ h => h) fun m' _ h => h

omit [FloatArith F] in
theorem follows_claimed {refuse : Call F α} {f : Option Error → Call F α}
    (hm : Sending workerId taskId n m)
    (hrefuse : ∀ m', m'.inLock = false → refuse.Follows (discipline F) Unlocked m')
    (hfail : ∀ m' e, m'.inLock = false → (f (some e)).Follows (discipline F) Unlocked m')
    (hsent : (f none).Follows (discipline F) Unlocked { m with wrote := some n, claim := .sent }) :
    ((admitTask workerId taskId r).bind fun admitted =>
      if admitted = true then (writeTask workerId taskId payload n).bind f else refuse).Follows
        (discipline F) Unlocked m := by
  refine Proc.Follows.bind (follows_admitTask hm) (fun m₁ admitted h₁ => ?_) fun m₁ e h => h
  cases admitted with
  | false => exact hrefuse m₁ h₁
  | true =>
    rw [h₁]
    have hwrite := follows_writeTask (m := { m with claim := .held }) payload
      hm.role hm.target hm.wrote hm.inLock rfl
    rw [if_pos rfl]
    refine Proc.Follows.bind hwrite (fun m₂ refused h₂ => ?_) fun m₂ e h => h
    cases refused with
    | some e => exact hfail m₂ e h₂
    | none =>
      obtain ⟨n', hn', rfl⟩ := h₂
      obtain rfl : n = n' := by simpa [hm.target] using hn'
      exact hsent

theorem follows_dispatchTo {k : Nat} (hm : Sending workerId taskId n m)
    (hk : m.reader = some (some k)) :
    (dispatchTo B workerId taskId payload timeout n k r).Follows (discipline F) Unlocked m := by
  apply follows_quiet (by rfl) (fun record => ?_) fun e => hm.inLock
  apply follows_unavailable hm.inLock (fun b => ?_) fun e => hm.inLock
  cases b with
  | true => exact Quiet.unlocked (quiet_bind (by rfl) fun _ => trivial) hm.inLock
  | false =>
    apply Quiet.follows_bind quiet_authorize (fun x => ?_) fun e => hm.inLock
    cases x with
    | error reason => exact Quiet.unlocked (quiet_bind (by rfl) fun _ => trivial) hm.inLock
    | ok payload =>
      exact follows_claimed hm (fun m' h => h) (fun m' e h => h)
        (follows_awaitResult hm.role hm.target hm.polled hk rfl hm.inLock rfl)

theorem follows_dispatchTaskToWorker :
    (dispatchTaskToWorker B workerId taskId payload timeout).Follows (discipline F) Unlocked
      (.initial (.send workerId taskId)) := by
  refine follows_perform (.inl rfl) (fun proc _ => ?_) fun e _ => rfl
  refine follows_perform (.inl rfl) (fun reader _ => ?_) fun e _ => rfl
  apply follows_quiet (by rfl) (fun record => ?_) fun e => rfl
  apply (follows_running proc rfl).bind
  · intro m live h
    cases live with
    | none =>
      have hl : m.inLock = false := by
        obtain ⟨-, rfl⟩ | ⟨-, rfl⟩ := h <;> rfl
      exact hl
    | some n =>
      obtain ⟨rfl, rfl⟩ := h
      cases reader with
      | none => cases record <;> exact rfl
      | some k => cases record with
        | none => exact rfl
        | some r => exact follows_dispatchTo ⟨rfl, rfl, rfl, rfl, rfl, rfl⟩ rfl
  · rintro m e rfl
    exact rfl

theorem follows_sendTo (hm : Sending workerId taskId n m) :
    (sendTo B workerId taskId payload n r).Follows (discipline F) Unlocked m := by
  apply follows_quiet (by rfl) (fun record => ?_) fun e => hm.inLock
  apply follows_unavailable hm.inLock (fun b => ?_) fun e => hm.inLock
  cases b with
  | true => exact hm.inLock
  | false =>
    apply Quiet.follows_bind quiet_authorize (fun x => ?_) fun e => hm.inLock
    cases x with
    | error reason => exact hm.inLock
    | ok payload =>
      exact follows_claimed hm (fun m' h => h) (fun m' e h => h) hm.inLock

theorem follows_sendTaskAsync :
    (sendTaskAsync B workerId taskId payload).Follows (discipline F) Unlocked
      (.initial (.send workerId taskId)) := by
  refine follows_perform (.inl rfl) (fun proc _ => ?_) fun e _ => rfl
  apply follows_quiet (by rfl) (fun record => ?_) fun e => rfl
  apply (follows_running proc rfl).bind
  · intro m live h
    cases live with
    | none =>
      have hl : m.inLock = false := by
        obtain ⟨-, rfl⟩ | ⟨-, rfl⟩ := h <;> rfl
      exact hl
    | some n =>
      obtain ⟨rfl, rfl⟩ := h
      cases record with
      | none => exact rfl
      | some r => exact follows_sendTo ⟨rfl, rfl, rfl, rfl, rfl, rfl⟩
  · rintro m e rfl
    exact rfl

/-- A worker that is attached has a process that was found to run, and the reader that the call
found first is still the one that it reads from. -/
def Attached (m : Mode) : Mode → Except Error Bool → Prop
  | m', .ok true => m'.role = m.role ∧ m'.inLock = m.inLock ∧ m'.claim = m.claim ∧
      m'.reader = m.reader ∧ m'.polled = some false ∧ ∃ n, m'.target = some (some n)
  | m', _ => m'.inLock = m.inLock

omit [FloatArith F] in
theorem follows_hasAttachedWorkerIpc (workerId : String) {k : Nat} (hr : m.role.concerns workerId)
    (hk : m.reader = some (some k)) :
    (hasAttachedWorkerIpc (F := F) workerId).Follows (discipline F) (Attached m) m := by
  refine follows_perform (.inl hr) (fun proc _ => ?_) fun e _ => rfl
  refine follows_perform (.inl hr) (fun reader _ => ?_) fun e _ => rfl
  apply follows_quiet (by rfl) (fun record => ?_) fun e => rfl
  apply (follows_running proc rfl).bind
  · intro m' live h
    cases live with
    | none =>
      have hl : m'.inLock = m.inLock := by
        obtain ⟨-, rfl⟩ | ⟨-, rfl⟩ := h <;> rfl
      exact hl
    | some n =>
      obtain ⟨rfl, rfl⟩ := h
      apply follows_quiet (by rfl) (fun closed => ?_) fun e => rfl
      have hno : ∀ {m' : Mode}, m'.inLock = m.inLock →
          (Proc.ret false : Call F Bool).Follows (discipline F) (Attached m) m' := fun h => h
      cases closed with
      | true => exact hno rfl
      | false => cases reader with
        | none => exact hno rfl
        | some k' => cases record with
          | none => exact hno rfl
          | some r =>
            apply follows_quiet (by rfl) (fun pid => ?_) fun e => rfl
            apply follows_quiet (by rfl) (fun record => ?_) fun e => rfl
            apply (Quiet.follows (quiet_perform (by rfl))).mono
            rintro m' x rfl
            cases x with
            | error e => rfl
            | ok b => cases b with
              | false => rfl
              | true => exact ⟨rfl, rfl, rfl, by simp [Mode.next, hk], rfl, n, rfl⟩
  · rintro m' e rfl
    rfl

omit [FloatArith F] in
theorem follows_collectAsyncResult :
    (collectAsyncResult B workerId taskId).Follows (discipline F) Unlocked
      (.initial (.collect workerId taskId)) := by
  apply follows_quiet (by rfl) (fun outstanding => ?_) fun e => rfl
  apply (Proc.follows_require_bind _ _).mpr ⟨fun _ => ?_, fun _ => rfl⟩
  refine follows_perform (.inl rfl) (fun reader _ => ?_) fun e _ => rfl
  cases reader with
  | none => exact rfl
  | some k =>
    have hattached := follows_hasAttachedWorkerIpc (F := F) workerId (k := k)
      (m := Mode.next (F := F) (.initial (.collect workerId taskId)) (.readerOf workerId)
        (.ok (some k))) rfl rfl
    refine Proc.Follows.bind hattached (fun m attached h => ?_) fun m e h => h
    cases attached with
    | false => exact h
    | true =>
      obtain ⟨hr, hl, hc, hk, hp, n, ht⟩ := h
      refine follows_perform ⟨hk, hp, n, ht, .inr ⟨⟨workerId, hr⟩, hc⟩⟩ (fun event _ => ?_)
        fun e _ => hl
      cases event with
      | none => exact hl
      | some event =>
        have hsettle := follows_settle (m := { m with claim := .taken }) (B := B) event
          (fun tokens => do
            let record ← perform (.recordOf workerId)
            onObject (fun r => perform (.setTokens r tokens)) record
            storeTokens workerId tokens) (.inr ⟨taskId, hr⟩) hl rfl fun tokens =>
          quiet_bind (by rfl) fun record =>
            (quiet_onObject (fun r => quiet_perform (by rfl)) record).bind fun _ =>
              quiet_storeTokens tokens
        exact hsettle.bind (fun m' _ h => h) fun m' _ h => h

end Tasks

/-! ## Ending processes -/

/-- A call that may take the worker off the books: one that ends its process, or a switch that has
found it free. -/
def Ends (workerId : String) (m : Mode) : Prop :=
  m.role.concerns workerId ∧ ((∃ w, m.role = .finish w) ∨
    m.role = .switch workerId ∧ m.inLock = true ∧ m.claim = .vacant)

def Kept (m m' : Mode) : Prop := m'.role = m.role ∧ m'.inLock = m.inLock

theorem quiet_markEnd {code : Option Int} {status : WorkerStatus} {record : Option Nat} :
    (markEnd (F := F) code status record).Only Quiet :=
  quiet_onObject (fun r => quiet_bind (by rfl) fun _ => quiet_perform (by rfl)) record

theorem quiet_storeStatus {status : WorkerStatus} :
    (storeStatus (F := F) workerId status).Only Quiet :=
  quiet_updateSession _

theorem quiet_pidOf {proc record : Option Nat} : (pidOf (F := F) proc record).Only Quiet := by
  cases proc with
  | some n => exact quiet_perform (by rfl)
  | none => cases record with
    | some r => exact quiet_bind (by rfl) fun _ => trivial
    | none => trivial

theorem quiet_exitCode {proc : Option Nat} : (exitCode (F := F) proc).Only Quiet := by
  cases proc with
  | some n => exact quiet_perform (by rfl)
  | none => trivial

theorem follows_askToStop (proc : Option Nat) (hm : m.target = some proc) :
    (askToStop (F := F) proc).Follows (discipline F)
      (fun m' _ => ∃ polled, m' = { m with polled }) m := by
  refine Proc.Follows.bind (follows_running _ hm) (fun m' live h => ?_) fun m' e h => ⟨_, h⟩
  cases live with
  | none =>
    obtain ⟨-, rfl⟩ | ⟨-, rfl⟩ := h
    · exact ⟨_, rfl⟩
    · exact ⟨_, rfl⟩
  | some n =>
    obtain ⟨-, rfl⟩ := h
    have hquiet : (((perform (.write n .stop)).bind fun _ => perform (.wait n)).tryCatch fun e =>
        if e.kind = .timeoutExpired ∨ e.kind = .os then .ret () else .raise e :
        Call F Unit).Only Quiet := by
      apply (quiet_bind (by rfl) fun _ => quiet_perform (by rfl)).tryCatch
      intro e
      split <;> trivial
    apply (Quiet.follows hquiet).mono
    rintro m' r rfl
    exact ⟨_, rfl⟩

theorem follows_forget (hm : Ends workerId m)
    (hdrop : m.role = .switch workerId → ∃ proc, m.target = some proc ∧
      (proc = none ∨ m.closed = true)) :
    (forget (F := F) workerId).Follows (discipline F) (fun m' _ => Kept m m') m := by
  have hdropped : workerId ∈ (m.next (F := F) (.dropProcess workerId) (.ok ())).dropped :=
    List.mem_cons_self
  refine follows_perform ⟨hm.1, ?_⟩ (fun _ _ => ?_) fun e _ => ⟨rfl, rfl⟩
  · exact hm.2.imp_right fun ⟨hr, hl, hc⟩ => ⟨hr, hl, hc, hdrop hr⟩
  refine follows_perform ⟨hm.1, hdropped, ?_⟩ (fun _ _ => ?_) fun e _ => ⟨rfl, rfl⟩
  · exact hm.2.imp_right fun ⟨hr, hl, _⟩ => ⟨hr, hl⟩
  refine follows_perform ?_ (fun _ _ => ?_) fun e _ => ⟨rfl, rfl⟩
  · obtain ⟨w, hr⟩ | ⟨hr, hl, hc⟩ := hm.2
    · have hcon := hm.1
      simp only [hr] at hcon
      simpa [Mode.Allows, Mode.next, hr] using hcon
    · simp [Mode.Allows, Mode.next, hr, hl, hc]
  · apply (Quiet.follows (quiet_perform (by rfl))).mono
    rintro m' r rfl
    exact ⟨rfl, rfl⟩

theorem follows_terminateWorker (hm : Ends workerId m) :
    (terminateWorker (F := F) workerId).Follows (discipline F) (fun m' _ => Kept m m') m := by
  refine follows_perform (hm.2.elim (fun h => .inr (.inl h)) fun h => .inl hm.1) (fun proc _ => ?_)
    fun e _ => ⟨rfl, rfl⟩
  apply follows_quiet (by rfl) (fun record => ?_) fun e => ⟨rfl, rfl⟩
  apply Quiet.follows_bind quiet_pidOf (fun pid => ?_) fun e => ⟨rfl, rfl⟩
  refine Proc.Follows.bind (follows_askToStop proc rfl) ?_ ?_
  · rintro m' _ ⟨polled, rfl⟩
    have hkill : (Proc.when (0 < pid) (perform (.killTree pid)) : Call F Unit).Only Quiet :=
      Proc.only_when (quiet_perform (by rfl))
    apply Quiet.follows_bind hkill (fun _ => ?_) fun e => ⟨rfl, rfl⟩
    -- the pipes of the process that was found are closed
    have hclose : (onObject (F := F) (fun n => perform (.closePipes n)) proc).Follows (discipline F)
        (fun m' x => m'.role = m.role ∧ m'.inLock = m.inLock ∧ m'.claim = m.claim ∧
          (x = .ok () → m'.target = some proc ∧ (proc = none ∨ m'.closed = true)))
        ⟨m.role, some proc, polled, m.reader, m.started, m.hasReader, m.entered, false, m.dropped,
          m.wrote, m.inLock, m.claim⟩ := by
      cases proc with
      | none => exact ⟨rfl, rfl, rfl, fun _ => ⟨rfl, .inl rfl⟩⟩
      | some n =>
        refine follows_last (o := .closePipes n) trivial ?_
        rintro (e | a) -
        · exact ⟨rfl, rfl, rfl, by simp⟩
        · rw [Mode.next, if_pos rfl]
          exact ⟨rfl, rfl, rfl, fun _ => ⟨rfl, .inr rfl⟩⟩
    refine Proc.Follows.bind hclose ?_ fun m' e h => ⟨h.1, h.2.1⟩
    rintro m' _ ⟨hr, hl, hc, h⟩
    have hkept : ∀ e : Error, Kept m m' := fun _ => ⟨hr, hl⟩
    apply Quiet.follows_bind quiet_exitCode (fun code => ?_) hkept
    apply Quiet.follows_bind quiet_markEnd (fun _ => ?_) hkept
    apply Quiet.follows_bind quiet_exitCode (fun code => ?_) hkept
    apply Quiet.follows_bind quiet_storeStatus (fun _ => ?_) hkept
    have hends : Ends workerId m' := by
      rw [Ends, hr, hl, hc]
      exact hm
    refine Proc.Follows.bind (follows_forget hends fun _ => ⟨proc, h rfl⟩) ?_ ?_
    · rintro m₂ _ ⟨hr₂, hl₂⟩
      have hrest : ((perform (.dropJobHandle workerId)).bind fun _ => .ret true :
          Call F Bool).Only Quiet := quiet_bind (by rfl) fun _ => trivial
      apply (Quiet.follows hrest).mono
      rintro m₃ x rfl
      exact ⟨hr₂.trans hr, hl₂.trans hl⟩
    · rintro m₂ e ⟨hr₂, hl₂⟩
      exact ⟨hr₂.trans hr, hl₂.trans hl⟩
  · rintro m' e ⟨polled, rfl⟩
    exact ⟨rfl, rfl⟩

def Finishing (workerId : Option String) (m : Mode) : Prop :=
  m.role = .finish workerId ∧ m.inLock = false

theorem Finishing.terminate (workerId : String) {w : Option String} (hm : Finishing w m)
    (hw : (Role.finish w).concerns workerId) : (terminateWorker (F := F) workerId).Follows
      (discipline F) (fun m' _ => Finishing w m') m := by
  apply (follows_terminateWorker ⟨hm.1 ▸ hw, .inl ⟨w, hm.1⟩⟩).mono
  rintro m' _ ⟨hr, hl⟩
  exact ⟨hr.trans hm.1, hl.trans hm.2⟩

theorem follows_terminateAll : (terminateAll (F := F)).Follows (discipline F) Unlocked
    (.initial (.finish none)) := by
  apply follows_quiet (by rfl) (fun processes => ?_) fun e => rfl
  apply Proc.follows_forEach (I := fun _ m => Finishing none m) _ _ ⟨rfl, rfl⟩
  · intro workerId _ m hm
    exact Proc.Follows.bind (Finishing.terminate _ hm trivial) (fun m' _ h => h) fun m' e h => h.2
  · exact fun m hm => hm.2

theorem follows_reapWorker {n : Nat} (hm : Finishing none m) :
    (reapWorker (F := F) workerId n).Follows
    (discipline F) (fun m' _ => Finishing none m') m := by
  refine follows_perform trivial (fun code _ => ?_) fun e _ => hm
  have hnext : Finishing none (m.next (F := F) (.poll n) (.ok code)) := by
    simp only [Mode.next]
    split <;> exact hm
  cases code with
  | none => exact hnext
  | some code =>
    apply follows_quiet (by rfl) (fun record => ?_) fun e => hnext
    apply Quiet.follows_bind quiet_markEnd (fun _ => ?_) fun e => hnext
    apply Quiet.follows_bind quiet_storeStatus (fun _ => ?_) fun e => hnext
    have hends : Ends workerId (m.next (F := F) (.poll n) (.ok (some code))) :=
      ⟨by rw [hnext.1]; trivial, .inl ⟨none, hnext.1⟩⟩
    refine Proc.Follows.bind (follows_forget hends fun h => ?_) ?_ ?_
    · rw [hnext.1] at h
      cases h
    · rintro m' _ ⟨hr, hl⟩
      exact ⟨hr.trans hnext.1, hl.trans hnext.2⟩
    · rintro m' _ ⟨hr, hl⟩
      exact ⟨hr.trans hnext.1, hl.trans hnext.2⟩

theorem follows_reapDeadWorkers : (reapDeadWorkers (F := F)).Follows (discipline F) Unlocked
    (.initial (.finish none)) := by
  apply follows_quiet (by rfl) (fun processes => ?_) fun e => rfl
  apply Proc.follows_fold (I := fun _ m => Finishing none m) _ _ _ ⟨rfl, rfl⟩
  · intro reaped p _ m hm
    exact Proc.Follows.bind (follows_reapWorker hm) (fun m' _ h => h) fun m' e h => h.2
  · exact fun reaped m hm => hm.2

/-! ## Starting a process -/

section Spawning

variable {B : Builtins F} {mode : IsolationMode} {config : WorkerConfig F} {n : Nat}

theorem quiet_abandon {kind : Kind} {text : String} :
    (abandon n kind text : Call F α).Only Quiet :=
  quiet_bind (by rfl) fun _ => quiet_bind (by rfl) fun _ => trivial

theorem quiet_workingDirectory {path : Option String} :
    (workingDirectory (F := F) mode path).Only Quiet := by
  unfold workingDirectory
  split
  next => trivial
  next =>
    apply quiet_bind (by rfl)
    intro workspace
    apply quiet_bind (by rfl)
    intro dir
    exact Proc.only_require_bind fun _ => trivial
  next => trivial
  next => exact quiet_bind (by rfl) fun _ => trivial

theorem quiet_restrictProcess : (restrictProcess (F := F) mode workerId n).Only Quiet := by
  apply Proc.only_when
  apply (quiet_bind (by rfl) fun _ => quiet_perform (by rfl)).tryCatch
  exact fun e => quiet_abandon

theorem quiet_childPid {event : Reply F} : (childPid B event n).Only Quiet := by
  apply quiet_bind (by rfl)
  intro pid
  have hint : (intOf B ((event.get? "pid").getD (.int pid))).Only Quiet := by
    rw [intOf]
    split <;> trivial
  apply hint.bind
  intro announced
  split
  next => trivial
  next => exact quiet_abandon

theorem quiet_checkIdentity : (checkIdentity (F := F) mode n).Only Quiet := by
  apply Proc.only_when
  apply quiet_bind (by rfl)
  intro identity
  cases identity with
  | true => trivial
  | false => exact quiet_abandon

theorem quiet_acknowledge {secret : String} :
    (acknowledge (F := F) workerId n secret).Only Quiet := by
  apply (quiet_perform (by rfl)).tryCatch
  intro e
  simp only
  split
  next => exact quiet_abandon
  next => trivial

theorem quiet_creationTime [FloatArith F] {event : Reply F} {pid : Int} :
    (creationTime event pid).Only Quiet := by
  have hfloat :
    (floatOf ((event.get? "create_time").getD (.float ((0 : Nat) : F)))).Only Quiet := by
    rw [floatOf]
    split <;> trivial
  apply hfloat.bind
  intro announced
  split
  next => exact (quiet_perform (by rfl)).tryCatch fun _ => quiet_perform (by rfl)
  next => trivial

structure Spawning (workerId : String) (n : Nat) (m : Mode) : Prop where
  role : m.role = .spawn workerId
  started : m.started = some n
  hasReader : m.hasReader = true
  inLock : m.inLock = false

theorem follows_initEvent (hm : Spawning workerId n m) :
    (initEvent (F := F) workerId n).Follows (discipline F) (fun m' _ => m' = m) m := by
  refine follows_perform ⟨⟨workerId, hm.role⟩, hm.started⟩ (fun line _ => ?_) fun e _ => rfl
  apply Quiet.follows
  cases line with
  | none =>
    have hmessage : ((perform (.readStderr n)).tryCatch fun _ => .ret "" :
        Call F String).Only Quiet := (quiet_perform (by rfl)).tryCatch fun _ => trivial
    exact hmessage.bind fun message => quiet_abandon
  | some line => cases line with
    | none => trivial
    | some event =>
      simp only
      split <;> trivial

theorem follows_enterWorker {worktreePath : Option String} {secret : String} {pid : Int}
    {createTime : F} (hm : Spawning config.workerId n m) :
    (enterWorker mode config worktreePath secret n pid createTime).Follows (discipline F) Unlocked
      m := by
  apply follows_quiet (by rfl) (fun now => ?_) fun e => hm.inLock
  refine follows_perform ⟨hm.role, hm.started, hm.hasReader⟩ (fun _ _ => ?_) fun e _ => hm.inLock
  apply follows_quiet (by rfl) (fun _ => ?_) fun e => hm.inLock
  apply follows_quiet (by rfl) (fun _ => ?_) fun e => hm.inLock
  have hrelease : (release (F := F) config.workerId).Follows (discipline F) Unlocked
      (m.next (F := F) (.setProcess config.workerId n) (.ok ())) := by
    refine follows_perform ?_ (fun _ _ => ?_) fun e _ => hm.inLock
    · simp [Mode.Allows, Mode.next, hm.role]
    · exact Quiet.unlocked (quiet_perform (by rfl)) hm.inLock
  exact Proc.Follows.bind hrelease (fun m' _ h => h) fun m' e h => h

theorem follows_spawnWorker [FloatArith F] {worktreePath : Option String} :
    (spawnWorker B mode config worktreePath).Follows (discipline F) Unlocked
      (.initial (.spawn config.workerId)) := by
  refine follows_perform (.inl rfl) (fun prior _ => ?_) fun e _ => rfl
  refine Proc.Follows.bind (follows_running prior rfl) ?_ ?_
  · intro m live h
    have hl : m.inLock = false := by
      cases live with
      | some n =>
        obtain ⟨-, rfl⟩ := h
        rfl
      | none => obtain ⟨-, rfl⟩ | ⟨-, rfl⟩ := h <;> rfl
    apply (Proc.follows_require_bind _ _).mpr ⟨fun hlive => ?_, fun _ => hl⟩
    subst hlive
    apply follows_quiet (by rfl) (fun secret => ?_) fun e => hl
    apply Quiet.follows_bind quiet_workingDirectory (fun cwd => ?_) fun e => hl
    apply follows_quiet (by rfl) (fun _ => ?_) fun e => hl
    refine follows_perform ?_ (fun n _ => ?_) fun e _ => hl
    · obtain ⟨rfl, rfl⟩ | ⟨⟨n, rfl⟩, rfl⟩ := h
      · exact ⟨config.workerId, rfl, rfl, rfl, rfl, rfl, .inl rfl⟩
      · exact ⟨config.workerId, rfl, rfl, rfl, rfl, rfl, .inr ⟨⟨n, rfl⟩, rfl⟩⟩
    have hspawning :
      Spawning config.workerId n { m with started := some n, hasReader := true } := by
      obtain ⟨-, rfl⟩ | ⟨-, rfl⟩ := h <;> exact ⟨rfl, rfl, rfl, rfl⟩
    have hentered : m.entered = false := by
      obtain ⟨-, rfl⟩ | ⟨-, rfl⟩ := h <;> rfl
    apply Quiet.follows_bind quiet_restrictProcess (fun _ => ?_) fun e => hl
    refine follows_perform ⟨hspawning.role, rfl, hentered⟩ (fun _ _ => ?_) fun e _ => hl
    refine Proc.Follows.bind (follows_initEvent hspawning) ?_ ?_
    · rintro _ event rfl
      apply Quiet.follows_bind quiet_childPid (fun pid => ?_) fun e => hl
      apply Quiet.follows_bind quiet_checkIdentity (fun _ => ?_) fun e => hl
      apply Quiet.follows_bind quiet_acknowledge (fun _ => ?_) fun e => hl
      apply Quiet.follows_bind quiet_creationTime (fun createTime => ?_) fun e => hl
      exact follows_enterWorker hspawning
    · rintro _ e rfl
      exact hl
  · rintro m e rfl
    exact rfl

end Spawning

/-! ## Switching -/

section Switching

variable {B : Builtins F} {n : Nat} {harness : String} {model provider effort : Option String}

theorem quiet_exchange {reader : Option Nat} {requestId : String} {fallback : Bool} :
    (exchange (F := F) workerId n reader requestId harness model provider effort fallback).Only
      Quiet := by
  apply quiet_bind (by rfl)
  intro _
  cases reader with
  | none => trivial
  | some k =>
    apply quiet_bind (by rfl)
    intro ack
    cases ack with
    | none => trivial
    | some ack => exact Proc.only_require _ _

theorem quiet_checkHarness {adapter : Worker.HarnessAdapter} :
    (checkHarness B adapter harness model provider effort).Only Quiet := by
  apply Proc.only_require_bind
  intro _
  apply Proc.only_require_bind
  intro _
  exact Proc.only_require _ _

def Switching (workerId : String) (m : Mode) : Prop :=
  m.role = .switch workerId ∧ m.inLock = true ∧ m.claim = .vacant

theorem follows_confirmReconfigure {fallback : Bool} (hm : Switching workerId m) :
    (confirmReconfigure (F := F) workerId harness model provider effort fallback).Follows
      (discipline F) (fun m' _ => m'.inLock = true) m := by
  obtain ⟨hr, hl, hc⟩ := hm
  have hcon : m.role.concerns workerId := by rw [hr]; rfl
  refine follows_perform (.inl hcon) (fun proc _ => ?_) fun e _ => hl
  refine follows_perform (.inl hcon) (fun reader _ => ?_) fun e _ => hl
  refine Proc.Follows.bind (follows_running proc rfl) ?_ ?_
  · intro m' live h
    cases live with
    | none => obtain ⟨-, rfl⟩ | ⟨-, rfl⟩ := h <;> exact hl
    | some n =>
      obtain ⟨-, rfl⟩ := h
      apply follows_quiet (by rfl) (fun requestId => ?_) fun e => hl
      refine Proc.Follows.tryCatch (Quiet.follows quiet_exchange) ?_ ?_
      · rintro _ _ rfl
        exact hl
      · rintro _ e rfl
        refine Proc.Follows.bind (follows_terminateWorker ⟨hcon, .inr ⟨hr, hl, hc⟩⟩) ?_ ?_
        · rintro m₂ _ ⟨-, hl₂⟩
          exact hl₂.trans hl
        · rintro m₂ e ⟨-, hl₂⟩
          exact hl₂.trans hl
  · rintro m' e rfl
    exact hl

variable {newModel newProvider newEffort : Option String} {fallback : Option Bool} {r : Nat}

theorem follows_switchTo (hr : m.role = .switch workerId) (hl : m.inLock = true)
    (hc : m.claim = .none) :
    (switchTo B workerId harness newModel newProvider newEffort fallback r).Follows (discipline F)
      (fun m' _ => m'.inLock = true) m := by
  apply follows_quiet (by rfl) (fun record => ?_) fun e => hl
  apply (Proc.follows_require_bind _ _).mpr ⟨fun _ => ?_, fun _ => hl⟩
  refine follows_perform (fun _ => by rw [hr]; rfl) (fun busy _ => ?_) fun e _ => hl
  rw [Mode.next, if_pos ⟨hl, hc⟩]
  apply (Proc.follows_require_bind _ _).mpr ⟨fun hbusy => ?_, fun _ => hl⟩
  subst hbusy
  simp only [Bool.false_eq_true, if_false]
  split
  next => exact hl
  next adapter _ =>
    apply Quiet.follows_bind quiet_checkHarness (fun _ => ?_) fun e => hl
    apply follows_quiet (by rfl) (fun session => ?_) fun e => hl
    cases session with
    | none => exact hl
    | some session =>
      refine Proc.Follows.bind (follows_confirmReconfigure ⟨hr, hl, rfl⟩) ?_ fun m' e h => h
      intro m' _ hl'
      have hrest : ∀ (updatedAt : F), (perform (.saveSession { session with
          config := reconfigured session.config adapter harness newModel newProvider newEffort
            (fallback.getD session.config.fallbackToNative)
          updatedAt }) : Call F Unit).Only Quiet := fun _ => quiet_perform (by rfl)
      apply follows_quiet (by rfl) (fun updatedAt => ?_) fun e => hl'
      exact Quiet.follows_bind (hrest updatedAt) (fun _ => hl') fun e => hl'

theorem follows_switchWorkerHarness :
    (switchWorkerHarness B workerId harness newModel newProvider newEffort fallback).Follows
      (discipline F) Unlocked (.initial (.switch workerId)) := by
  apply follows_locked (M := fun m' _ => m'.inLock = true) rfl (fun _ => ⟨rfl, rfl⟩) ?_
    (fun m' x h => ⟨h, rfl⟩) fun e => rfl
  apply follows_quiet (by rfl) (fun record => ?_) fun e => rfl
  cases record with
  | none => exact rfl
  | some r =>
    have halive := follows_looking (m := { Mode.initial (.switch workerId) with inLock := true })
      (looks_isWorkerAlive (F := F) workerId (.inl rfl)) (by rintro ⟨⟩)
    refine Proc.Follows.bind halive (fun m alive h => ?_) fun m e h => h.inLock
    cases alive with
    | false => exact h.inLock
    | true => exact follows_switchTo h.role h.inLock h.claim

end Switching

/-! ## Every other call -/

section Others

variable {role : Role}

theorem looks_hasAttachedWorkerIpc (hr : role.concerns workerId ∨ role = .other) :
    (hasAttachedWorkerIpc (F := F) workerId).Only (Op.looks role) := by
  apply looks_bind (.inr hr)
  intro proc
  apply looks_bind (.inr hr)
  intro reader
  apply looks_bind (.inl rfl)
  intro record
  apply (looks_running proc).bind
  intro live
  apply looks_of_quiet
  cases live with
  | none => trivial
  | some n =>
    apply quiet_bind (by rfl)
    intro closed
    split
    next =>
      apply quiet_bind (by rfl)
      intro pid
      exact quiet_bind (by rfl) fun _ => quiet_perform (by rfl)
    next => trivial

theorem looks_isWorkerDispatchable :
    (isWorkerDispatchable (F := F) workerId).Only (Op.looks .other) := by
  have hattached : ((hasAttachedWorkerIpc workerId).bind fun attached =>
      if attached = true then (perform (.isBusy workerId)).bind fun busy => .ret !busy
      else .ret false : Call F Bool).Only (Op.looks .other) := by
    apply (looks_hasAttachedWorkerIpc (.inr rfl)).bind
    intro attached
    split
    next => exact looks_bind (.inr rfl) fun _ => trivial
    next => trivial
  apply looks_bind (.inl rfl)
  intro record
  cases record with
  | none => exact hattached
  | some r =>
    apply looks_bind (.inl rfl)
    intro record
    split
    next => trivial
    next => exact hattached

theorem quiet_getWorkerRecord : (getWorkerRecord (F := F) workerId).Only Quiet := by
  apply quiet_bind (by rfl)
  intro record
  cases record with
  | none => exact quiet_bind (by rfl) fun _ => trivial
  | some r => exact quiet_bind (by rfl) fun _ => trivial

theorem quiet_tryWrite {n : Nat} {message : Message F} (h : message.taskId? = none) :
    (tryWrite n message).Only Quiet := by
  have hwrite : Quiet (Op.write n message) := by
    cases message with
    | task => cases h
    | initAck | ping | interrupt | reconfigure | stop => rfl
  have hbody : ((perform (.write n message)).bind fun _ => .ret true : Call F Bool).Only Quiet :=
    quiet_bind hwrite fun _ => trivial
  apply hbody.tryCatch
  intro e
  split <;> trivial

theorem looks_processOf : (Op.processOf workerId : Op F).looks .other := .inr (.inr rfl)

theorem looks_readerOf : (Op.readerOf workerId : Op F).looks .other := .inr (.inr rfl)

theorem looks_pingWorker : (pingWorker (F := F) workerId).Only (Op.looks .other) := by
  apply looks_bind looks_processOf
  intro proc
  apply looks_bind looks_readerOf
  intro reader
  apply (looks_running proc).bind
  intro live
  apply looks_of_quiet
  split
  next n k _ _ =>
    apply (quiet_tryWrite rfl).bind
    intro written
    split
    next =>
      apply quiet_bind (by rfl)
      intro event
      cases event with
      | none => trivial
      | some event =>
        apply quiet_bind (by rfl)
        intro record
        apply (quiet_onObject (fun r => quiet_bind (by rfl) fun _ => quiet_perform (by rfl)) _).bind
        exact fun _ => trivial
    next => trivial
  next => trivial

theorem looks_interruptWorker :
    (interruptWorker (F := F) workerId taskId).Only (Op.looks .other) := by
  apply looks_bind looks_processOf
  intro proc
  apply looks_bind looks_readerOf
  intro reader
  apply (looks_running proc).bind
  intro live
  apply looks_of_quiet
  cases live with
  | none => trivial
  | some n =>
    apply (quiet_tryWrite rfl).bind
    intro written
    split
    next =>
      have hack : ∀ k, ((perform (.readlineMatching k (.control "INTERRUPTED" workerId))).bind
          fun _ => .ret () : Call F Unit).Only Quiet :=
            fun k => quiet_bind (by rfl) fun _ => trivial
      apply (quiet_onObject hack reader).bind
      intro _
      apply quiet_bind (by rfl)
      intro record
      apply (quiet_onObject (fun r => quiet_perform (by rfl)) _).bind
      exact fun _ => quiet_storeStatus.bind fun _ => trivial
    next => trivial

theorem looks_pauseWorker : (pauseWorker (F := F) workerId).Only (Op.looks .other) := by
  apply looks_bind (.inl rfl)
  intro record
  cases record with
  | none => trivial
  | some r =>
    apply (looks_isWorkerAlive _ (.inr rfl)).bind
    intro alive
    apply looks_of_quiet
    split
    next =>
      apply quiet_bind (by rfl)
      intro record
      split
      next => exact quiet_bind (by rfl) fun _ => quiet_storeStatus.bind fun _ => trivial
      next => trivial
    next => trivial

theorem looks_resumeWorker : (resumeWorker (F := F) workerId).Only (Op.looks .other) := by
  apply looks_bind (.inl rfl)
  intro record
  cases record with
  | none => trivial
  | some r =>
    apply (looks_isWorkerAlive _ (.inr rfl)).bind
    intro alive
    split
    next =>
      apply looks_bind (.inl rfl)
      intro record
      split
      next =>
        apply looks_bind (.inr rfl)
        intro busy
        apply looks_of_quiet
        split
        next => trivial
        next => exact quiet_bind (by rfl) fun _ => quiet_storeStatus.bind fun _ => trivial
      next => trivial
    next => trivial

theorem quiet_registerPersistedSession {config : WorkerConfig F} {pid : Int}
    {createTime : Option F} :
    (registerPersistedSession workerId config pid createTime).Only Quiet := by
  apply quiet_bind (by rfl)
  intro now
  exact quiet_bind (by rfl) fun _ => quiet_perform (by rfl)

theorem quiet_reconcileRecord {reconciled : List String} {p : String × Nat} :
    (reconcileRecord (F := F) reconciled p).Only Quiet := by
  apply quiet_bind (by rfl)
  intro record
  apply quiet_bind (by rfl)
  intro alive
  split
  next => trivial
  next => exact quiet_bind (by rfl) fun _ => quiet_storeStatus.bind fun _ => trivial

theorem quiet_reconcileSession {reconciled : List String} {session : AgentSession F} :
    (reconcileSession reconciled session).Only Quiet := by
  rw [reconcileSession]
  split
  next => trivial
  next =>
    split
    next =>
      split
      next => exact quiet_bind (by rfl) fun _ => quiet_bind (by rfl) fun _ =>
        quiet_bind (by rfl) fun _ => trivial
      next =>
        apply quiet_bind (by rfl)
        intro alive
        split
        next => trivial
        next => exact quiet_bind (by rfl) fun _ => quiet_bind (by rfl) fun _ =>
          quiet_bind (by rfl) fun _ => trivial
    next => trivial

theorem quiet_reconcileRehydratedSessions : (reconcileRehydratedSessions (F := F)).Only Quiet := by
  apply quiet_bind (by rfl)
  intro records
  apply (Proc.only_fold (fun _ _ => quiet_reconcileRecord) _ _).bind
  intro reconciled
  apply quiet_bind (by rfl)
  exact fun sessions => Proc.only_fold (fun _ _ => quiet_reconcileSession) _ _

theorem follows_other {p : Call F α} (hp : p.Only (Op.looks .other)) :
    p.Follows (discipline F) Unlocked (.initial .other) :=
  (follows_looking (m := .initial .other) hp fun _ => rfl).mono fun _ _ h => h.inLock

end Others

/-! ## All calls -/

variable [FloatArith F] {B : Builtins F} {mode : IsolationMode}

theorem follows_body (q : Request F) :
    (body B mode q).Follows (discipline F) Unlocked (.initial q.role) := by
  have hret : ∀ {α : Type} {p : Call F α} {m : Mode} {f : α → Response F},
      p.Follows (discipline F) Unlocked m →
        (p.bind fun a => .ret (f a)).Follows (discipline F) Unlocked m := fun h =>
    Proc.Follows.bind h (fun _ _ h => h) fun _ _ h => h
  cases q with
  | spawnWorker config worktreePath => exact hret follows_spawnWorker
  | hasAttachedWorkerIpc workerId =>
    exact hret (follows_other (looks_hasAttachedWorkerIpc (.inr rfl)))
  | isWorkerDispatchable workerId => exact hret (follows_other looks_isWorkerDispatchable)
  | isWorkerAlive workerId => exact hret (follows_other (looks_isWorkerAlive _ (.inr rfl)))
  | getWorkerRecord workerId => exact hret (follows_other (looks_of_quiet quiet_getWorkerRecord))
  | pingWorker workerId => exact hret (follows_other looks_pingWorker)
  | dispatchTaskToWorker workerId taskId payload timeout => exact hret follows_dispatchTaskToWorker
  | sendTaskAsync workerId taskId payload => exact hret follows_sendTaskAsync
  | collectAsyncResult workerId taskId => exact hret follows_collectAsyncResult
  | interruptWorker workerId taskId => exact hret (follows_other looks_interruptWorker)
  | pauseWorker workerId => exact hret (follows_other looks_pauseWorker)
  | resumeWorker workerId => exact hret (follows_other looks_resumeWorker)
  | switchWorkerHarness workerId => exact hret follows_switchWorkerHarness
  | terminateWorker workerId =>
    have hend := Finishing.terminate (F := F) workerId (w := some workerId)
      (m := .initial (.finish (some workerId))) ⟨rfl, rfl⟩ rfl
    exact hret (hend.mono fun _ _ h => h.2)
  | terminateAll => exact hret follows_terminateAll
  | reapDeadWorkers => exact hret follows_reapDeadWorkers
  | registerPersistedSession workerId config pid createTime =>
    exact hret (follows_other (looks_of_quiet quiet_registerPersistedSession))
  | reconcileRehydratedSessions =>
    exact hret (follows_other (looks_of_quiet quiet_reconcileRehydratedSessions))

end SubagentBridge.WorkerProcess
