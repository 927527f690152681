import SubagentBridge.Storage.AuditLedgerRuns

/-! The closing of recoveries: each has an event of its own that proves it. -/

namespace SubagentBridge.AuditLedger

open Library

variable {F : Type} [FloatText F] {sha : String → String}

/-! ## The statements of the transaction -/

/-- The statements of `reconcile_closed` at which SQLite may fail. -/
inductive Statement
  | beginImmediate | selectState | selectRows | selectKey | insertEvent | updateState | commit
  deriving DecidableEq

def Statement.run (fails : Statement → Bool) (s : Statement) : Except LedgerError Unit :=
  require (fails s = false) .operational

variable (F) (sha) in
def reconcileStatements (fails : Statement → Bool) (stream sessionId evidenceKey : String)
    (tx : Db) : Except LedgerError Db := do
  Statement.selectState.run fails
  if (tx.recovery stream sessionId).map (·.state) ≠ some .recoveryRequired then
    .error (.value "no unresolved recovery checkpoint")
  Statement.selectRows.run fails
  let existing := tx.readRows stream
  let _ ← checkRows sha stream existing
  let key := recoveryKey sessionId evidenceKey
  Statement.selectKey.run fails
  if (tx.findKey stream key).isSome then
    .error (.replayConflict "reconciliation key already used")
  let payloadJson := canonical (recoveryData sessionId evidenceKey : Json F)
  Statement.insertEvent.run fails
  let tx ← tx.insertEvent stream
    (nextRow sha stream key "RECOVERY_RECONCILED" payloadJson existing)
  Statement.updateState.run fails
  return tx.closeRecovery stream sessionId

variable (F) (sha) in
/-- What the open transaction sees reaches the file with `COMMIT` only. -/
def reconcileClosedAt (fails : Statement → Bool) (stream sessionId evidenceKey : String) (db : Db) :
    Except LedgerError Unit × Db :=
  if stream = "" ∨ sessionId = "" ∨ evidenceKey = "" then
    (.error (.value "reconciliation needs scoped stream/session/evidence"), db)
  else if fails .beginImmediate then (.error .operational, db)
  else match reconcileStatements F sha fails stream sessionId evidenceKey db with
    | .error e => (.error e, db)
    | .ok tx => if fails .commit then (.error .operational, db) else (.ok (), tx)

def Follows (x : Except LedgerError Db) (y : Except LedgerError (Unit × Db)) : Prop :=
  x = .error .operational ∨ x = y.map (·.2)

theorem Follows.run {fails : Statement → Bool} {s : Statement} {f : Unit → Except LedgerError Db}
    {y : Except LedgerError (Unit × Db)} (h : Follows (f ()) y) :
    Follows (s.run fails >>= f) y := by
  rw [Statement.run, require]
  split
  · exact h
  · exact .inl rfl

theorem Follows.bind {α : Type} {x : Except LedgerError α} {f : α → Except LedgerError Db}
    {g : α → Except LedgerError (Unit × Db)} (h : ∀ a, Follows (f a) (g a)) :
    Follows (x >>= f) (x >>= g) := by
  cases x with
  | error e => exact .inr rfl
  | ok a => exact h a

variable (F) (sha) in
theorem reconcileStatements_follows (fails : Statement → Bool)
    (stream sessionId evidenceKey : String) (db : Db) :
    Follows (reconcileStatements F sha fails stream sessionId evidenceKey db)
      (reconcileBody F sha stream sessionId evidenceKey db) := by
  rw [reconcileStatements, reconcileBody]
  apply Follows.run
  dsimp only
  split
  next => exact .inr rfl
  next =>
    apply Follows.run
    apply Follows.bind
    intro _
    apply Follows.run
    split
    next => exact .inr rfl
    next =>
      apply Follows.run
      apply Follows.bind
      intro tx
      exact Follows.run (.inr rfl)

variable (F) (sha) in
theorem reconcileClosedAt_cases (fails : Statement → Bool)
    (stream sessionId evidenceKey : String) (db : Db) :
    reconcileClosedAt F sha fails stream sessionId evidenceKey db = (.error .operational, db) ∨
      reconcileClosedAt F sha fails stream sessionId evidenceKey db =
        reconcileClosed F sha stream sessionId evidenceKey db := by
  rw [reconcileClosedAt, reconcileClosed]
  split
  next => exact .inr rfl
  next =>
    split
    next => exact .inl rfl
    next =>
      rw [transaction]
      rcases reconcileStatements_follows F sha fails stream sessionId evidenceKey db with h | h
      · rw [h]
        exact .inl rfl
      · rw [h]
        cases reconcileBody F sha stream sessionId evidenceKey db with
        | error e => exact .inr rfl
        | ok p =>
          cases hc : fails .commit with
          | true => exact .inl (by simp [Except.map])
          | false => exact .inr (by simp [Except.map])

/-! ## Runs with failures at every statement -/

/-- A call on one of the connections, and the statements at which SQLite fails it. -/
structure Call (F : Type) where
  conn : Nat
  request : Request F
  fails : Statement → Bool

variable (sha) in
def callAt (db : Db) (l : Call F) : Except LedgerError (Answer F) × Db :=
  match l.request with
  | .reconcileClosed stream sessionId evidenceKey =>
    let (r, db) := reconcileClosedAt F sha l.fails stream sessionId evidenceKey db
    (r.map fun _ => .done, db)
  | q => call sha db ⟨l.conn, q, l.fails .beginImmediate⟩

variable (sha) in
def stepAt (s : State F) (l : Call F) : Option (State F) :=
  some ⟨(callAt sha s.db l).2, s.log ++ [(l.request, (callAt sha s.db l).1)]⟩

theorem callAt_cases (sha : String → String) (db : Db) (l : Call F) :
    ∃ fails, callAt sha db l = call sha db ⟨l.conn, l.request, fails⟩ := by
  obtain ⟨conn, q, fails⟩ := l
  cases q with
  | reconcileClosed stream sessionId evidenceKey =>
    rcases reconcileClosedAt_cases F sha fails stream sessionId evidenceKey db with h | h
    · exact ⟨true, by simp only [callAt, h]; rfl⟩
    · exact ⟨false, by simp only [callAt, h]; rfl⟩
  | appendOnce | noteUnreconciled | verify | read => exact ⟨_, rfl⟩

theorem step_of_stepAt {s t : State F} {l : Call F} (h : stepAt sha s l = some t) :
    ∃ fails, step sha s ⟨l.conn, l.request, fails⟩ = some t := by
  obtain ⟨fails, hc⟩ := callAt_cases sha s.db l
  refine ⟨fails, ?_⟩
  rw [← h, step, stepAt, hc]

theorem run_of_runAt {s t : State F} {ls : List (Call F)} (h : Run (stepAt sha) s ls t) :
    ∃ ls', Run (step sha) s ls' t := by
  induction h with
  | refl => exact ⟨[], .refl⟩
  | tail _ _ hs ih =>
    obtain ⟨ls', h⟩ := ih
    obtain ⟨fails, hs⟩ := step_of_stepAt hs
    exact ⟨_, .tail h trivial hs⟩

/-! ## What a call does to the recoveries -/

def recoveryState (stream sessionId : String) (db : Db) : Option SessionState :=
  (db.recovery stream sessionId).map (·.state)

section Recoveries

variable {db db' : Db} {stream sessionId evidenceKey : String}

theorem recovery_setRecovery (db : Db) (row : RecoveryRow) (stream sessionId : String) :
    (db.setRecovery row).recovery stream sessionId =
      if row.stream = stream ∧ row.sessionId = sessionId then some row
      else db.recovery stream sessionId := by
  rw [Db.setRecovery]
  split
  next hsome =>
    have hkeep : ((fun r : RecoveryRow => decide (r.stream = stream ∧ r.sessionId = sessionId)) ∘
        fun r => if r.stream = row.stream ∧ r.sessionId = row.sessionId then row else r) =
          fun r => decide (r.stream = stream ∧ r.sessionId = sessionId) := by
      funext r
      by_cases hr : r.stream = row.stream ∧ r.sessionId = row.sessionId
      · simp [hr]
      · simp [hr]
    rw [Db.recovery, List.find?_map, hkeep]
    change Option.map _ (db.recovery stream sessionId) = _
    cases hrow : db.recovery stream sessionId with
    | none =>
      rw [if_neg]
      · rfl
      · rintro ⟨rfl, rfl⟩
        rw [hrow] at hsome
        cases hsome
    | some r =>
      have hr : r.stream = stream ∧ r.sessionId = sessionId := by
        simpa using List.find?_some hrow
      rw [Option.map_some, hr.1, hr.2]
      by_cases h : row.stream = stream ∧ row.sessionId = sessionId
      · simp [h]
      · rw [if_neg h, if_neg fun hsame => h ⟨hsame.1.symm, hsame.2.symm⟩]
  next hnone =>
    simp only [Db.recovery, List.find?_append]
    by_cases h : row.stream = stream ∧ row.sessionId = sessionId
    · obtain ⟨rfl, rfl⟩ := h
      have hrow : db.recovery row.stream row.sessionId = none := by simpa using hnone
      rw [Db.recovery] at hrow
      rw [hrow, if_pos ⟨rfl, rfl⟩]
      simp
    · simp [h]

theorem recovery_closeRecovery (db : Db) (stream sessionId stream' sessionId' : String) :
    (db.closeRecovery stream sessionId).recovery stream' sessionId' =
      if stream = stream' ∧ sessionId = sessionId' then
        (db.recovery stream' sessionId').map ({ · with state := .reconciledClosed })
      else db.recovery stream' sessionId' := by
  have hkeep : ((fun r : RecoveryRow => decide (r.stream = stream' ∧ r.sessionId = sessionId')) ∘
      fun r => if r.stream = stream ∧ r.sessionId = sessionId then
        { r with state := .reconciledClosed } else r) =
          fun r => decide (r.stream = stream' ∧ r.sessionId = sessionId') := by
    funext r
    by_cases hr : r.stream = stream ∧ r.sessionId = sessionId <;> simp [hr]
  rw [Db.closeRecovery, Db.recovery, List.find?_map, hkeep]
  change Option.map _ (db.recovery stream' sessionId') = _
  cases hrow : db.recovery stream' sessionId' with
  | none => split <;> rfl
  | some r =>
    have hr : r.stream = stream' ∧ r.sessionId = sessionId' := by simpa using List.find?_some hrow
    simp only [Option.map_some, hr]
    by_cases h : stream = stream' ∧ sessionId = sessionId'
    · simp [h]
    · rw [if_neg h, if_neg fun hsame => h ⟨hsame.1.symm, hsame.2.symm⟩]

theorem recoveryState_noted (db : Db) (stream sessionId cause stream' sessionId' : String) :
    recoveryState stream' sessionId'
      (db.setRecovery ⟨stream, sessionId, .recoveryRequired, cause⟩) =
      if stream = stream' ∧ sessionId = sessionId' then some .recoveryRequired
      else recoveryState stream' sessionId' db := by
  rw [recoveryState, recovery_setRecovery]
  split <;> rfl

theorem recoveryState_closed (db : Db) (stream sessionId stream' sessionId' : String) :
    recoveryState stream' sessionId' (db.closeRecovery stream sessionId) =
      if stream = stream' ∧ sessionId = sessionId' then
        (recoveryState stream' sessionId' db).map fun _ => .reconciledClosed
      else recoveryState stream' sessionId' db := by
  rw [recoveryState, recovery_closeRecovery, recoveryState]
  split
  next => rw [Option.map_map, Option.map_map]; rfl
  next => rfl

theorem recoveryState_record (db : Db) (stream : String) (row : Row) (s sessionId : String) :
    recoveryState s sessionId (db.record stream row) = recoveryState s sessionId db := rfl

theorem closeRecovery_rows (db : Db) (stream sessionId s : String) :
    (db.closeRecovery stream sessionId).rows s = db.rows s := rfl

structure Proves (F : Type) [FloatText F] (sessionId evidenceKey : String) (r : Row) : Prop where
  key : r.key = recoveryKey sessionId evidenceKey
  kind : r.kind = "RECOVERY_RECONCILED"
  body : r.payloadJson = canonical (recoveryData sessionId evidenceKey : Json F)

/-- The event, and with it the new state of the session: nothing else changes. -/
structure Closes (F : Type) [FloatText F] (stream sessionId evidenceKey : String) (db db' : Db) :
    Prop where
  required : recoveryState stream sessionId db = some .recoveryRequired
  event : ∃ row, Proves F sessionId evidenceKey row ∧ db'.rows stream = db.rows stream ++ [row]
  closed : recoveryState stream sessionId db' = some .reconciledClosed
  rows : ∀ s, s ≠ stream → db'.rows s = db.rows s
  others : ∀ s id, ¬ (s = stream ∧ id = sessionId) → recoveryState s id db' = recoveryState s id db

theorem Sound.reconcileBody_closes (hs : Sound F sha db) {u : Unit}
    (h : reconcileBody F sha stream sessionId evidenceKey db = .ok (u, db')) :
    Closes F stream sessionId evidenceKey db db' := by
  have hrequired : recoveryState stream sessionId db = some .recoveryRequired := by
    rw [reconcileBody] at h
    split at h
    next => cases h
    next hne => exact not_not.mp hne
  obtain ⟨-, rfl⟩ := hs.reconcileBody_ok F h
  constructor
  · exact hrequired
  · refine ⟨nextRow sha stream (recoveryKey sessionId evidenceKey) "RECOVERY_RECONCILED"
      (canonical (recoveryData sessionId evidenceKey : Json F)) (db.rows stream),
        ⟨rfl, rfl, rfl⟩, ?_⟩
    rw [closeRecovery_rows, rows_record, if_pos rfl]
  · rw [recoveryState_closed, if_pos ⟨rfl, rfl⟩, recoveryState_record, hrequired]
    rfl
  · intro s hne
    rw [closeRecovery_rows, rows_record, if_neg (Ne.symm hne)]
  · intro s id hne
    rw [recoveryState_closed, if_neg fun hsame => hne ⟨hsame.1.symm, hsame.2.symm⟩,
      recoveryState_record]

theorem Sound.reconcileClosed_cases (hs : Sound F sha db) (stream sessionId evidenceKey : String) :
    (reconcileClosed F sha stream sessionId evidenceKey db).1 = .ok () ∧
        Closes F stream sessionId evidenceKey db
          (reconcileClosed F sha stream sessionId evidenceKey db).2 ∨
      ∃ e, reconcileClosed F sha stream sessionId evidenceKey db = (.error e, db) := by
  rw [reconcileClosed]
  split
  next => exact .inr ⟨_, rfl⟩
  next =>
    rw [transaction]
    cases h : reconcileBody F sha stream sessionId evidenceKey db with
    | error e => exact .inr ⟨e, rfl⟩
    | ok p => exact .inl ⟨rfl, hs.reconcileBody_closes h⟩

theorem Sound.reconcileClosed_conflict (hs : Sound F sha db) {text : String}
    (h : (reconcileClosed F sha stream sessionId evidenceKey db).1 =
      .error (.replayConflict text)) :
    ∃ r ∈ db.rows stream, r.key = recoveryKey sessionId evidenceKey := by
  cases hk : db.findKey stream (recoveryKey sessionId evidenceKey) with
  | some r => exact ⟨r, findKey_some hk⟩
  | none =>
    rw [reconcileClosed] at h
    split at h
    next => cases h
    next =>
      rw [transaction, reconcileBody] at h
      by_cases hreq : (db.recovery stream sessionId).map (·.state) = some .recoveryRequired
      · simp [hreq, hs.readRows, hs.checkRows, hk, hs.insert hk, bind, Except.bind, pure,
          Except.pure] at h
      · simp [hreq, bind, Except.bind] at h

def Notes (stream sessionId : String) : Request F × Except LedgerError (Answer F) → Bool
  | (.noteUnreconciled s id _, .ok _) => s = stream && id = sessionId
  | _ => false

def Reconciled (stream sessionId evidenceKey : String) :
    Request F × Except LedgerError (Answer F) → Bool
  | (.reconcileClosed s id evidence, .ok _) =>
    s = stream && id = sessionId && evidence = evidenceKey
  | _ => false

/-- What becomes of a session in a call: nothing, or it is noted, or it is closed. -/
inductive Fate (F : Type) [FloatText F] (stream sessionId : String) (db db' : Db)
    (x : Request F × Except LedgerError (Answer F)) : Prop
  | kept : recoveryState stream sessionId db' = recoveryState stream sessionId db →
      Notes stream sessionId x = false → (∀ ev, Reconciled stream sessionId ev x = false) →
      Fate F stream sessionId db db' x
  | noted : recoveryState stream sessionId db' = some .recoveryRequired →
      (∀ ev, Reconciled stream sessionId ev x = false) → Fate F stream sessionId db db' x
  | closed (evidenceKey : String) : Closes F stream sessionId evidenceKey db db' →
      Notes stream sessionId x = false →
      (∀ ev, Reconciled stream sessionId ev x = decide (evidenceKey = ev)) →
      Fate F stream sessionId db db' x

theorem Sound.call_fate (hs : Sound F sha db) (l : Label F) (stream sessionId : String) :
    Fate F stream sessionId db (call sha db l).2 (l.request, (call sha db l).1) := by
  rw [call]
  split
  next => exact .kept rfl (by cases l.request <;> rfl) fun ev => by cases l.request <;> rfl
  next =>
    cases l.request with
    | appendOnce s key kind payload =>
      refine .kept ?_ rfl fun _ => rfl
      have hcases := hs.appendOnce_cases s key kind payload
      simp only [perform]
      generalize appendOnce sha s key kind payload db = x at hcases ⊢
      obtain ⟨r, db'⟩ := x
      cases hcases <;> rfl
    | verify | read => exact .kept rfl rfl fun _ => rfl
    | noteUnreconciled s id cause =>
      simp only [perform, noteUnreconciled]
      split
      next => exact .kept rfl rfl fun _ => rfl
      next =>
        by_cases h : s = stream ∧ id = sessionId
        · exact .noted (by rw [recoveryState_noted, if_pos h]) fun _ => rfl
        · refine .kept (by rw [recoveryState_noted, if_neg h]) ?_ fun _ => rfl
          simpa [Notes, Except.map, not_and] using h
    | reconcileClosed s id evidence =>
      simp only [perform]
      rcases hs.reconcileClosed_cases s id evidence with ⟨hok, hc⟩ | ⟨e, he⟩
      · generalize reconcileClosed F sha s id evidence db = x at hok hc ⊢
        obtain ⟨r, db'⟩ := x
        cases hok
        by_cases h : stream = s ∧ sessionId = id
        · obtain ⟨rfl, rfl⟩ := h
          exact .closed evidence hc rfl fun ev => by simp [Reconciled, Except.map]
        · refine .kept (hc.others _ _ h) rfl fun ev => ?_
          have h' : ¬ (s = stream ∧ id = sessionId) := fun hsame => h ⟨hsame.1.symm, hsame.2.symm⟩
          simp only [Reconciled, Except.map]
          by_cases hst : s = stream <;> simp_all
      · rw [he]
        exact .kept rfl rfl fun _ => rfl

end Recoveries

/-! ## Runs -/

section Runs

variable {s s₁ : State F} {stream sessionId evidenceKey : String}

theorem proven_since {ls : List (Label F)} (hs : Sound F sha s₁.db)
    (h : Run (step sha) s₁ ls s)
    (hopen : recoveryState stream sessionId s₁.db ≠ some .reconciledClosed)
    (hclosed : recoveryState stream sessionId s.db = some .reconciledClosed) :
    ∃ ev, ∃ row ∈ (s.db.rows stream).drop (s₁.db.rows stream).length,
      Proves F sessionId ev row := by
  induction h with
  | refl => exact absurd hclosed hopen
  | @tail s s' ls l hrun _ hst ih =>
    have hold := sound_run hs hrun
    have hgrows := rows_mono_run hold (.single trivial hst) stream
    have hfate := hold.call_fate l stream sessionId
    cases hst
    cases hfate with
    | kept hsame =>
      obtain ⟨ev, row, hrow, hproves⟩ := ih (hsame ▸ hclosed)
      obtain ⟨added, hadded⟩ := hgrows
      refine ⟨ev, row, ?_, hproves⟩
      rw [← hadded, List.drop_append_of_le_length (rows_mono_run hs hrun stream).length_le]
      exact List.mem_append_left _ hrow
    | noted hnoted => rw [hnoted] at hclosed; cases hclosed
    | closed ev hc =>
      obtain ⟨row, hproves, hrows⟩ := hc.event
      refine ⟨ev, row, ?_, hproves⟩
      change row ∈ ((call sha s.db l).2.rows stream).drop _
      rw [hrows, List.drop_append_of_le_length (rows_mono_run hs hrun stream).length_le]
      exact List.mem_append_right _ (List.mem_singleton.mpr rfl)

theorem recoveryKey_injective {s id e e' : String} (h : recoveryKey s e = recoveryKey id e') :
    s = id ∧ e = e' := by
  apply framed_injective
  apply String.toList_injective
  have hlist := congrArg String.toList h
  simpa [recoveryKey, framed] using hlist

def Unreserved (stream : String) (q : Request F) : Prop :=
  ∀ key kind payload, q = .appendOnce stream key kind payload →
    ¬ "recovery:".toList <+: key.toList

theorem recoveryKey_reserved (sessionId evidenceKey : String) :
    "recovery:".toList <+: (recoveryKey sessionId evidenceKey).toList := by
  simp [recoveryKey]

omit [FloatText F] in
theorem Accounted.events (ha : Accounted s) (hplain : ∀ x ∈ s.log, Unreserved stream x.1)
    (sessionId evidenceKey : String) : s.log.countP (Reconciled stream sessionId evidenceKey) =
      (s.db.rows stream).countP (·.key = recoveryKey sessionId evidenceKey) := by
  have hcreates : s.log.countP (Creates stream (recoveryKey sessionId evidenceKey)) = 0 := by
    rw [List.countP_eq_zero]
    rintro ⟨q, r⟩ hx hc
    cases q with
    | appendOnce st key kind payload =>
      cases r with
      | error e => cases hc
      | ok ans =>
        cases ans with
        | appended e created =>
          cases created with
          | false => cases hc
          | true =>
            simp only [Creates, Bool.and_eq_true, decide_eq_true_eq] at hc
            obtain ⟨rfl, rfl⟩ := hc
            exact hplain _ hx _ kind payload rfl (recoveryKey_reserved ..)
        | done | tail | events => cases hc
    | noteUnreconciled | reconcileClosed | verify | read => cases hc
  have hreconciles : s.log.countP (Reconciles stream (recoveryKey sessionId evidenceKey)) =
      s.log.countP (Reconciled stream sessionId evidenceKey) := by
    refine List.countP_congr fun x _ => ?_
    obtain ⟨q, r⟩ := x
    cases q with
    | reconcileClosed st id evidence =>
      cases r with
      | error e => rfl
      | ok ans =>
        simp only [Reconciles, Reconciled, Bool.and_eq_true, decide_eq_true_eq]
        constructor
        · rintro ⟨hst, hkey⟩
          obtain ⟨rfl, rfl⟩ := recoveryKey_injective hkey
          exact ⟨⟨hst, rfl⟩, rfl⟩
        · rintro ⟨⟨hst, rfl⟩, rfl⟩
          exact ⟨hst, rfl⟩
    | appendOnce | noteUnreconciled | verify | read => rfl
  rw [← ha.written, hcreates, hreconciles, Nat.zero_add]

theorem requests_run {ls : List (Call F)} (h : Run (stepAt sha) initial ls s) :
    s.log.map (·.1) = ls.map (·.request) := by
  induction h with
  | refl => rfl
  | tail _ _ hs ih =>
    cases hs
    rw [List.map_append, ih, List.map_append]
    rfl

variable (sha) in
/-- What the run `ls` to `s` says about the recoveries of a stream. -/
structure ClosuresProven (stream : String) (ls : List (Call F)) (s : State F) : Prop where
  proven : ∀ sessionId, recoveryState stream sessionId s.db = some .reconciledClosed →
    (∃ ev, ∃ row ∈ s.db.rows stream, Proves F sessionId ev row) ∧
    ∀ ls₁ s₁ l s₂ ls₂, ls = ls₁ ++ l :: ls₂ → Run (stepAt sha) initial ls₁ s₁ →
      stepAt sha s₁ l = some s₂ → Run (stepAt sha) s₂ ls₂ s →
      Notes stream sessionId (l.request, (callAt sha s₁.db l).1) →
        ∃ ev, ∃ row ∈ (s.db.rows stream).drop (s₂.db.rows stream).length, Proves F sessionId ev row
  atomic : ∀ (l : Call F) sessionId ev, l.request = .reconcileClosed stream sessionId ev →
    (callAt sha s.db l).1 = .ok .done ∧ Closes F stream sessionId ev s.db (callAt sha s.db l).2 ∨
      ∃ e, callAt sha s.db l = (.error e, s.db)
  distinct : ∀ sessionId ev sessionId' ev',
    recoveryKey sessionId ev = recoveryKey sessionId' ev' → sessionId = sessionId' ∧ ev = ev'
  conflict : ∀ (l : Call F) sessionId ev text, l.request = .reconcileClosed stream sessionId ev →
    (callAt sha s.db l).1 = .error (.replayConflict text) →
      s.log.countP (Reconciled stream sessionId ev) = 1
  once : ∀ sessionId ev, s.log.countP (Reconciled stream sessionId ev) ≤ 1

theorem callAt_reconciles (hs : Sound F sha s.db) {l : Call F}
    (hl : l.request = .reconcileClosed stream sessionId evidenceKey) :
    (callAt sha s.db l).1 = .ok .done ∧
        Closes F stream sessionId evidenceKey s.db (callAt sha s.db l).2 ∨
      ∃ e, callAt sha s.db l = (.error e, s.db) := by
  rcases reconcileClosedAt_cases F sha l.fails stream sessionId evidenceKey s.db with h | h
  · exact .inr ⟨.operational, by simp only [callAt, hl, h]; rfl⟩
  · rcases hs.reconcileClosed_cases stream sessionId evidenceKey with ⟨hok, hc⟩ | ⟨e, he⟩
    · refine .inl ?_
      simp only [callAt, hl, h, hok]
      exact ⟨rfl, hc⟩
    · exact .inr ⟨e, by simp only [callAt, hl, h, he]; rfl⟩

theorem noted_required (hs : Sound F sha s.db) {l : Call F}
    (hn : Notes stream sessionId (l.request, (callAt sha s.db l).1)) :
    recoveryState stream sessionId (callAt sha s.db l).2 = some .recoveryRequired := by
  obtain ⟨fails, hc⟩ := callAt_cases sha s.db l
  rw [hc] at hn ⊢
  cases hs.call_fate ⟨l.conn, l.request, fails⟩ stream sessionId with
  | kept _ hno => rw [hno] at hn; cases hn
  | noted h => exact h
  | closed _ _ hno => rw [hno] at hn; cases hn

theorem closures_proven {ls : List (Call F)} (h : Run (stepAt sha) initial ls s)
    (hplain : ∀ l ∈ ls, Unreserved stream l.request) : ClosuresProven sha stream ls s := by
  obtain ⟨ls', hrun⟩ := run_of_runAt h
  obtain ⟨hs, ha⟩ := accounted_run hrun
  have hlog : ∀ x ∈ s.log, Unreserved stream x.1 := by
    intro x hx
    obtain ⟨l, hl, hq⟩ := List.mem_map.mp (requests_run h ▸ List.mem_map_of_mem hx)
    exact hq ▸ hplain l hl
  have hevents := ha.events hlog
  have hcount (sessionId ev : String) :
      (s.db.rows stream).countP (·.key = recoveryKey sessionId ev) ≤ 1 := by
    have honce := (history hrun).once stream (recoveryKey sessionId ev)
    rw [ha.written] at honce
    exact honce
  constructor
  · intro sessionId hclosed
    constructor
    · have hs : Sound F sha (initial : State F).db := sound_empty
      obtain ⟨ev, row, hrow, hproves⟩ := proven_since hs hrun
        (by simp [recoveryState, initial, Db.recovery, Db.empty]) hclosed
      exact ⟨ev, row, List.mem_of_mem_drop hrow, hproves⟩
    · intro ls₁ s₁ l s₂ ls₂ _ h₁ hst h₂ hn
      obtain ⟨_, h₁⟩ := run_of_runAt h₁
      obtain ⟨_, h₂⟩ := run_of_runAt h₂
      obtain ⟨_, hst'⟩ := step_of_stepAt hst
      have hs₁ := (accounted_run h₁).1
      refine proven_since (sound_step hs₁ hst') h₂ ?_ hclosed
      cases hst
      rw [noted_required hs₁ hn]
      simp
  · exact fun l sessionId ev hl => callAt_reconciles hs hl
  · exact fun _ _ _ _ => recoveryKey_injective
  · intro l sessionId ev text hl herr
    rw [hevents]
    refine le_antisymm (hcount _ _) (List.countP_pos_iff.mpr ?_)
    have hconflict : (reconcileClosed F sha stream sessionId ev s.db).1 =
        .error (.replayConflict text) := by
      simp only [callAt, hl] at herr
      rcases reconcileClosedAt_cases F sha l.fails stream sessionId ev s.db with h | h
      · rw [h] at herr
        cases herr
      · rw [h] at herr
        exact map_error herr
    obtain ⟨r, hr, hk⟩ := hs.reconcileClosed_conflict hconflict
    exact ⟨r, hr, decide_eq_true hk⟩
  · exact fun sessionId ev => (hevents sessionId ev).le.trans (hcount sessionId ev)

/-- Two sessions and evidence keys whose texts run together, a failed update, and a new note. -/
def colonSessions : List (Call Empty) :=
  [⟨0, .noteUnreconciled "run" "s:1" "lost", fun _ => false⟩,
    ⟨1, .noteUnreconciled "run" "s" "lost", fun _ => false⟩,
    ⟨0, .reconcileClosed "run" "s:1" "ev", fun s => s = .updateState⟩,
    ⟨0, .reconcileClosed "run" "s:1" "ev", fun _ => false⟩,
    ⟨1, .reconcileClosed "run" "s" "1:ev", fun _ => false⟩,
    ⟨1, .noteUnreconciled "run" "s" "again", fun _ => false⟩,
    ⟨0, .reconcileClosed "run" "s" "1:ev", fun _ => false⟩]

theorem closures_proven_colons :
    ∃ s, Run (stepAt fun _ => "digest") initial colonSessions s ∧
      (s.db.rows "run").length = 2 ∧
      recoveryState "run" "s:1" s.db = some .reconciledClosed ∧
      recoveryState "run" "s" s.db = some .recoveryRequired ∧
      ClosuresProven (fun _ => "digest") "run" colonSessions s :=
  ⟨_, run_exec colonSessions rfl, by decide +kernel, by decide +kernel, by decide +kernel,
    closures_proven (run_exec colonSessions rfl) (by simp [colonSessions, Unreserved])⟩

end Runs

end SubagentBridge.AuditLedger
