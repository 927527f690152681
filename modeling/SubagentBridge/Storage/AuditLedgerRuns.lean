import SubagentBridge.Library.Fallible
import SubagentBridge.Storage.AuditLedgerLaws

/-! What holds of the ledger in every state that calls on its connections reach. -/

namespace SubagentBridge.AuditLedger

open Library

variable {F : Type} [FloatText F] {sha : String → String}

structure ChainedRows (sha : String → String) (stream : String) (rows : List Row) : Prop where
  numbered : ∀ (i : Nat) r, rows[i]? = some r → r.seq = i + 1
  first : ∀ r, rows[0]? = some r → r.prevSha = GENESIS
  linked : ∀ (i : Nat) r r', rows[i]? = some r → rows[i + 1]? = some r' → r'.prevSha = r.eventSha
  recomputes : ∀ r ∈ rows, r.eventSha = digest sha stream r.seq r.key r.kind r.payloadJson r.prevSha

theorem chainedRows {stream tail : String} {rows : List Row}
    (h : (chain sha stream).Chain rows tail) : ChainedRows sha stream rows where
  numbered i r hr := by
    obtain ⟨p, -, ⟨hs, -⟩, -⟩ := h.head? hr
    rw [hs]
    push_cast
    omega
  first r hr := by
    obtain ⟨p, hp, ⟨-, hs⟩, -⟩ := h.head? hr
    cases hp
    exact hs
  linked i r r' hr hr' := by
    obtain ⟨p, hp, ⟨-, hs⟩, -⟩ := h.head? hr'
    rw [hs, hp.stored_last, List.take_add_one, hr]
    simp [chain]
  recomputes r hr := by
    obtain ⟨i, hi⟩ := List.mem_iff_getElem?.mp hr
    obtain ⟨p, -, ⟨hs, hp⟩, hd⟩ := h.head? hi
    rw [hs, hp]
    exact hd

structure Sound (F : Type) [FloatText F] (sha : String → String) (db : Db) : Prop where
  chained : ∀ stream, ∃ tail, (chain sha stream).Chain (db.rows stream) tail
  keys : ∀ stream, ((db.rows stream).map (·.key)).Nodup
  bodies : ∀ stream, ∀ r ∈ db.rows stream, ∃ data : Json F, data.Wf ∧ r.payloadJson = canonical data

def Db.record (db : Db) (stream : String) (row : Row) : Db :=
  { db with auditEvents := db.auditEvents ++ [{ row with stream }] }

theorem rows_record (db : Db) (stream : String) (row : Row) (s : String) :
    (db.record stream row).rows s = if stream = s then db.rows s ++ [row] else db.rows s := by
  by_cases h : stream = s <;> simp [Db.record, Db.rows, h]

theorem rows_congr {db db' : Db} (h : db'.auditEvents = db.auditEvents) (stream : String) :
    db'.rows stream = db.rows stream := by
  rw [Db.rows, h, ← Db.rows]

theorem Sound.congr {db db' : Db} (hs : Sound F sha db) (h : db'.auditEvents = db.auditEvents) :
    Sound F sha db' where
  chained stream := rows_congr h stream ▸ hs.chained stream
  keys stream := rows_congr h stream ▸ hs.keys stream
  bodies stream := rows_congr h stream ▸ hs.bodies stream

theorem sound_empty : Sound F sha .empty where
  chained _ := ⟨GENESIS, .nil _ _⟩
  keys _ := by simp [Db.empty, Db.rows]
  bodies _ := by simp [Db.empty, Db.rows]

section Reads

variable {db : Db} {stream key kind : String}

theorem Sound.checkRows (hs : Sound F sha db) (stream : String) :
    checkRows sha stream (db.rows stream) = .ok (prevOf (db.rows stream)) := by
  obtain ⟨t, ht⟩ := hs.chained stream
  have hlast : t = prevOf (db.rows stream) := ht.stored_last
  exact checkRows_iff.mpr (hlast ▸ ht)

theorem Sound.readRows (hs : Sound F sha db) (stream : String) :
    db.readRows stream = db.rows stream := by
  obtain ⟨t, ht⟩ := hs.chained stream
  apply List.Pairwise.insertionSort_eq
  rw [List.pairwise_iff_getElem]
  intro i j hi hj hij
  have hc := chainedRows ht
  rw [hc.numbered i _ (List.getElem?_eq_getElem hi), hc.numbered j _ (List.getElem?_eq_getElem hj)]
  omega

theorem findKey_none : db.findKey stream key = none ↔ ∀ r ∈ db.rows stream, r.key ≠ key := by
  simp [Db.findKey]

theorem findKey_some {r : Row} (h : db.findKey stream key = some r) :
    r ∈ db.rows stream ∧ r.key = key :=
  ⟨List.mem_of_find?_eq_some h, by simpa using List.find?_some h⟩

theorem Sound.findKey (hs : Sound F sha db) {r : Row} (hr : r ∈ db.rows stream) :
    db.findKey stream r.key = some r := by
  cases h : db.findKey stream r.key with
  | none => exact absurd rfl (findKey_none.mp h r hr)
  | some r' =>
    obtain ⟨hr', hk⟩ := findKey_some h
    rw [List.inj_on_of_nodup_map (hs.keys stream) hr' hr hk]

end Reads

/-! ## Writing a row -/

section Write

variable {db : Db} {stream key kind : String} {data : Json F}

theorem Sound.insert (hs : Sound F sha db) (hk : db.findKey stream key = none) (body : String) :
    db.insertEvent stream (nextRow sha stream key kind body (db.rows stream)) =
      .ok (db.record stream (nextRow sha stream key kind body (db.rows stream))) := by
  rw [Db.insertEvent, if_neg]
  · rfl
  · rw [not_or]
    refine ⟨by simp only [nextRow]; omega, ?_⟩
    rintro ⟨r, hr, hseq | hkey⟩
    · obtain ⟨t, ht⟩ := hs.chained stream
      obtain ⟨i, hi⟩ := List.mem_iff_getElem?.mp hr
      have hlen := (List.getElem?_eq_some_iff.mp hi).1
      rw [(chainedRows ht).numbered i r hi] at hseq
      simp only [nextRow] at hseq
      omega
    · exact findKey_none.mp hk r hr hkey

theorem Sound.record (hs : Sound F sha db) (hk : db.findKey stream key = none) (hd : data.Wf) :
    Sound F sha
      (db.record stream (nextRow sha stream key kind (canonical data) (db.rows stream))) where
  chained s := by
    rw [rows_record]
    split
    next h =>
      subst h
      obtain ⟨t, ht⟩ := hs.chained stream
      exact ⟨_, chain_nextRow ht key kind (canonical data)⟩
    next => exact hs.chained s
  keys s := by
    rw [rows_record]
    split
    next h =>
      subst h
      rw [List.map_append, List.nodup_append]
      refine ⟨hs.keys stream, by simp, ?_⟩
      intro a ha b hb hab
      obtain ⟨r, hr, rfl⟩ := List.mem_map.mp ha
      rw [List.map_singleton, List.mem_singleton] at hb
      exact findKey_none.mp hk r hr (hab.trans hb)
    next => exact hs.keys s
  bodies s := by
    rw [rows_record]
    split
    next h =>
      subst h
      intro r hr
      rcases List.mem_append.mp hr with hr | hr
      · exact hs.bodies stream r hr
      · rw [List.mem_singleton.mp hr]
        exact ⟨data, hd, rfl⟩
    next => exact hs.bodies s

end Write

/-! ## What a call does -/

def Creates (stream key : String) : Request F × Except LedgerError (Answer F) → Bool
  | (.appendOnce s k _ _, .ok (.appended _ true)) => s = stream && k = key
  | _ => false

def Reconciles (stream key : String) : Request F × Except LedgerError (Answer F) → Bool
  | (.reconcileClosed s sessionId evidenceKey, .ok _) =>
    s = stream && recoveryKey sessionId evidenceKey = key
  | _ => false

def Appends (stream key : String) : Request F × Except LedgerError (Answer F) → Bool
  | (.appendOnce s k _ _, .ok _) => s = stream && k = key
  | _ => false

/-- All that a call does to the rows: nothing, or it adds one under a new key and
reports just that. -/
inductive Effect (sha : String → String) (db db' : Db) (q : Request F)
    (r : Except LedgerError (Answer F)) : Prop
  | quiet : db'.auditEvents = db.auditEvents →
      (∀ s k, Creates s k (q, r) = false ∧ Reconciles s k (q, r) = false ∧
        (Appends s k (q, r) = true → db.findKey s k ≠ none)) → Effect sha db db' q r
  | records (stream key kind : String) (data : Json F) : data.Wf → db.findKey stream key = none →
      db'.auditEvents =
        (db.record stream
          (nextRow sha stream key kind (canonical data) (db.rows stream))).auditEvents →
      (∀ s k, (if Creates s k (q, r) then 1 else 0) + (if Reconciles s k (q, r) then 1 else 0) =
          (if s = stream ∧ k = key then 1 else 0) ∧
        (Appends s k (q, r) = true → s = stream ∧ k = key)) → Effect sha db db' q r

section Calls

variable {db : Db} {stream key kind : String} {data : Json F} {payload : Value F}

theorem Sound.appendData_fresh (hs : Sound F sha db) (hk : db.findKey stream key = none) :
    let row := nextRow sha stream key kind (canonical data) (db.rows stream)
    appendData sha stream key kind data db =
      .ok ((⟨stream, row.seq, key, kind, data, row.prevSha, row.eventSha⟩, true),
        db.record stream row) := by
  simp only [appendData, bind, Except.bind, pure, Except.pure, hs.readRows, hs.checkRows, hk,
    hs.insert hk]

theorem Sound.appendData_known (hs : Sound F sha db) {r : Row}
    (hk : db.findKey stream key = some r) :
    appendData sha stream key kind data db =
      if r.kind ≠ kind ∨ r.payloadJson ≠ canonical data then
        .error (.replayConflict "idempotency key reused for a different event")
      else .ok ((⟨stream, r.seq, key, kind, data, r.prevSha, r.eventSha⟩, false), db) := by
  simp only [appendData, bind, Except.bind, hs.readRows, hs.checkRows, hk]

/-- All that `append_once` can do: refuse the payload, find the key taken by another event, find
the event itself, or record it. -/
inductive Appended (sha : String → String) (stream key kind : String) (payload : Value F)
    (db : Db) : Except LedgerError (AuditEvent F × Bool) → Db → Prop
  | refused (e : LedgerError) : scrubPayload stream key kind payload = .error e →
      Appended sha stream key kind payload db (.error e) db
  | conflict (data : Json F) (r : Row) : scrubPayload stream key kind payload = .ok data →
      db.findKey stream key = some r → ¬ (r.kind = kind ∧ r.payloadJson = canonical data) →
      Appended sha stream key kind payload db
        (.error (.replayConflict "idempotency key reused for a different event")) db
  | known (data : Json F) (r : Row) : scrubPayload stream key kind payload = .ok data →
      db.findKey stream key = some r → r.kind = kind → r.payloadJson = canonical data →
      Appended sha stream key kind payload db
        (.ok (⟨stream, r.seq, key, kind, data, r.prevSha, r.eventSha⟩, false)) db
  | fresh (data : Json F) (row : Row) : scrubPayload stream key kind payload = .ok data →
      db.findKey stream key = none →
      row = nextRow sha stream key kind (canonical data) (db.rows stream) →
      Appended sha stream key kind payload db
        (.ok (⟨stream, row.seq, key, kind, data, row.prevSha, row.eventSha⟩, true))
        (db.record stream row)

theorem Sound.appendOnce_cases (hs : Sound F sha db) (stream key kind : String)
    (payload : Value F) :
    Appended sha stream key kind payload db (appendOnce sha stream key kind payload db).1
      (appendOnce sha stream key kind payload db).2 := by
  rw [appendOnce]
  cases hp : scrubPayload stream key kind payload with
  | error e => exact .refused e hp
  | ok data =>
    simp only [transaction]
    cases hk : db.findKey stream key with
    | none =>
      rw [hs.appendData_fresh hk]
      exact .fresh data _ hp hk rfl
    | some r =>
      rw [hs.appendData_known hk]
      by_cases hc : r.kind = kind ∧ r.payloadJson = canonical data
      · rw [if_neg (by rw [hc.1, hc.2]; simp)]
        exact .known data r hp hk hc.1 hc.2
      · rw [if_pos (not_and_or.mp hc)]
        exact .conflict data r hp hk hc

theorem Sound.appendOnce_effect (hs : Sound F sha db) :
    Effect sha db (perform sha db (.appendOnce stream key kind payload)).2
      (.appendOnce stream key kind payload)
      (perform sha db (.appendOnce stream key kind payload)).1 := by
  have hcases := hs.appendOnce_cases stream key kind payload
  simp only [perform]
  generalize appendOnce sha stream key kind payload db = x at hcases ⊢
  obtain ⟨r, db'⟩ := x
  cases hcases with
  | refused e | conflict data r =>
    exact .quiet rfl fun s k => by simp [Creates, Reconciles, Appends, Except.map]
  | known data r _ hk =>
    refine .quiet rfl fun s k => ⟨rfl, rfl, ?_⟩
    simp only [Appends, Except.map, Bool.and_eq_true, decide_eq_true_eq]
    rintro ⟨rfl, rfl⟩
    simp [hk]
  | fresh data row hp hk hrow =>
    subst hrow
    refine .records stream key kind data (wf_scrubPayload hp) hk rfl fun s k => ⟨?_, ?_⟩
    · by_cases h : stream = s ∧ key = k
      · obtain ⟨rfl, rfl⟩ := h
        simp [Creates, Reconciles, Except.map]
      · have h' : ¬ (s = stream ∧ k = key) := fun ⟨h₁, h₂⟩ => h ⟨h₁.symm, h₂.symm⟩
        simp [Creates, Reconciles, Except.map, h, h']
    · simp only [Appends, Except.map, Bool.and_eq_true, decide_eq_true_eq]
      exact fun ⟨h₁, h₂⟩ => ⟨h₁.symm, h₂.symm⟩

section Appended

variable {db' : Db} {ans : Except LedgerError (AuditEvent F × Bool)}

def Db.Records (db : Db) (stream key kind : String) (payload : Value F) : Prop :=
  ∃ data, scrubPayload stream key kind payload = .ok data ∧
    ∃ r ∈ db.rows stream, r.key = key ∧ r.kind = kind ∧ r.payloadJson = canonical data

theorem Appended.sound (ha : Appended sha stream key kind payload db ans db')
    (hs : Sound F sha db) : Sound F sha db' := by
  cases ha with
  | refused | conflict | known => exact hs
  | fresh data row hp hk hrow => exact hrow ▸ hs.record hk (wf_scrubPayload hp)

theorem Appended.grows (ha : Appended sha stream key kind payload db ans db') (s : String) :
    db.rows s <+: db'.rows s := by
  cases ha with
  | refused | conflict | known => exact List.prefix_rfl
  | fresh data row =>
    rw [rows_record]
    split
    · exact List.prefix_append ..
    · exact List.prefix_rfl

theorem Appended.records {e : AuditEvent F × Bool}
    (ha : Appended sha stream key kind payload db (.ok e) db') :
    db'.Records stream key kind payload := by
  cases ha with
  | known data r hp hk hkind hbody =>
    obtain ⟨hr, hkey⟩ := findKey_some hk
    exact ⟨data, hp, r, hr, hkey, hkind, hbody⟩
  | fresh data row hp hk hrow =>
    refine ⟨data, hp, row, ?_, hrow ▸ rfl, hrow ▸ rfl, hrow ▸ rfl⟩
    rw [rows_record, if_pos rfl]
    exact List.mem_append_right _ (List.mem_singleton.mpr rfl)

theorem Appended.error {e : LedgerError}
    (ha : Appended sha stream key kind payload db (.error e) db') : db' = db := by
  cases ha <;> rfl

theorem Db.Records.mono (hr : db.Records stream key kind payload)
    (hp : ∀ s, db.rows s <+: db'.rows s) : db'.Records stream key kind payload := by
  obtain ⟨data, hd, r, hmem, hr⟩ := hr
  exact ⟨data, hd, r, (hp stream).subset hmem, hr⟩

end Appended

theorem setRecovery_auditEvents (db : Db) (row : RecoveryRow) :
    (db.setRecovery row).auditEvents = db.auditEvents := by
  rw [Db.setRecovery]
  split <;> rfl

omit [FloatText F] in
theorem wf_recoveryData (sessionId evidenceKey : String) :
    (recoveryData sessionId evidenceKey : Json F).Wf := by
  simp [recoveryData, Json.Wf, WfMembers, Dict.keys]

variable (F) in
theorem Sound.reconcileBody_ok (hs : Sound F sha db) {sessionId evidenceKey : String}
    {u : Unit} {db' : Db} (h : reconcileBody F sha stream sessionId evidenceKey db = .ok (u, db')) :
    db.findKey stream (recoveryKey sessionId evidenceKey) = none ∧
      db' = (db.record stream (nextRow sha stream (recoveryKey sessionId evidenceKey)
        "RECOVERY_RECONCILED" (canonical (recoveryData sessionId evidenceKey : Json F))
        (db.rows stream))).closeRecovery stream sessionId := by
  simp only [reconcileBody, bind, Except.bind, pure, Except.pure, hs.readRows, hs.checkRows] at h
  split at h
  next => cases h
  next =>
    cases hk : db.findKey stream (recoveryKey sessionId evidenceKey) with
    | some r => simp [hk] at h
    | none =>
      simp only [hk, Option.isSome_none, Bool.false_eq_true, if_false, hs.insert hk] at h
      cases h
      exact ⟨rfl, rfl⟩

theorem Sound.reconcileClosed_effect (hs : Sound F sha db) (sessionId evidenceKey : String) :
    Effect sha db (perform sha db (.reconcileClosed stream sessionId evidenceKey : Request F)).2
      (.reconcileClosed stream sessionId evidenceKey)
      (perform sha db (.reconcileClosed stream sessionId evidenceKey : Request F)).1 := by
  simp only [perform, reconcileClosed]
  split
  next => exact .quiet rfl fun s k => by simp [Creates, Reconciles, Appends, Except.map]
  next =>
    simp only [transaction]
    cases hb : reconcileBody F sha stream sessionId evidenceKey db with
    | error e => exact .quiet rfl fun s k => by simp [Creates, Reconciles, Appends, Except.map]
    | ok p =>
      obtain ⟨u, db'⟩ := p
      obtain ⟨hk, rfl⟩ := hs.reconcileBody_ok F hb
      refine .records stream _ "RECOVERY_RECONCILED" (recoveryData sessionId evidenceKey)
        (wf_recoveryData _ _) hk rfl fun s k => ⟨?_, by simp [Appends]⟩
      by_cases h : stream = s ∧ recoveryKey sessionId evidenceKey = k
      · obtain ⟨rfl, rfl⟩ := h
        simp [Creates, Reconciles, Except.map]
      · have h' : ¬ (s = stream ∧ k = recoveryKey sessionId evidenceKey) :=
          fun ⟨h₁, h₂⟩ => h ⟨h₁.symm, h₂.symm⟩
        simp [Creates, Reconciles, Except.map, h, h']

theorem Sound.call_effect (hs : Sound F sha db) (l : Label F) :
    Effect sha db (call sha db l).2 l.request (call sha db l).1 := by
  rw [call]
  split
  next =>
    refine .quiet rfl fun s k => ?_
    cases l.request <;> simp [Creates, Reconciles, Appends]
  next =>
    cases l.request with
    | appendOnce stream key kind payload => exact hs.appendOnce_effect
    | noteUnreconciled stream sessionId cause =>
      refine .quiet ?_ fun s k => by simp [Creates, Reconciles, Appends]
      simp only [perform, noteUnreconciled]
      split
      next => rfl
      next => exact setRecovery_auditEvents db _
    | reconcileClosed stream sessionId evidenceKey => exact hs.reconcileClosed_effect _ _
    | verify stream expectedTail =>
      exact .quiet rfl fun s k => by simp [Creates, Reconciles, Appends]
    | read stream readerStream =>
      exact .quiet rfl fun s k => by simp [Creates, Reconciles, Appends]

end Calls

/-! ## Runs -/

section Runs

variable {s t : State F} {ls : List (Label F)}

theorem Effect.sound {db db' : Db} {q : Request F} {r : Except LedgerError (Answer F)}
    (h : Effect sha db db' q r) (hs : Sound F sha db) : Sound F sha db' := by
  cases h with
  | quiet hev _ => exact hs.congr hev
  | records stream key kind data hd hk hev _ => exact (hs.record hk hd).congr hev

theorem Effect.rows_mono {db db' : Db} {q : Request F} {r : Except LedgerError (Answer F)}
    (h : Effect sha db db' q r) (stream : String) : db.rows stream <+: db'.rows stream := by
  cases h with
  | quiet hev _ => exact rows_congr hev stream ▸ List.prefix_refl _
  | records stream' key kind data hd hk hev _ =>
    rw [rows_congr hev, rows_record]
    split
    next => exact List.prefix_append _ _
    next => exact List.prefix_refl _

theorem sound_step {l : Label F} (hs : Sound F sha s.db) (h : step sha s l = some t) :
    Sound F sha t.db := by
  cases h
  exact (hs.call_effect l).sound hs

theorem sound_run (hs : Sound F sha s.db) (h : Run (step sha) s ls t) : Sound F sha t.db :=
  h.invariant (I := fun s => Sound F sha s.db) hs fun _ _ _ hI _ => sound_step hI

theorem rows_mono_run (hs : Sound F sha s.db) (h : Run (step sha) s ls t) (stream : String) :
    s.db.rows stream <+: t.db.rows stream := by
  refine h.relates (I := fun s => Sound F sha s.db)
    (R := fun s t => s.db.rows stream <+: t.db.rows stream) hs (fun _ _ _ hI _ => sound_step hI)
    ?_ (fun _ => List.prefix_refl _) fun _ _ _ => List.IsPrefix.trans
  intro s l t hI _ hst
  cases hst
  exact (hI.call_effect l).rows_mono stream

structure Accounted (s : State F) : Prop where
  written : ∀ stream key, s.log.countP (Creates stream key) + s.log.countP (Reconciles stream key) =
    (s.db.rows stream).countP (·.key = key)
  appended : ∀ stream key, ∀ x ∈ s.log, Appends stream key x → ∃ r ∈ s.db.rows stream, r.key = key

theorem accounted_step {l : Label F} (hs : Sound F sha s.db) (ha : Accounted s)
    (h : step sha s l = some t) : Accounted t := by
  cases h
  have heff := hs.call_effect l
  have hold : ∀ stream key, ∀ x ∈ s.log, Appends stream key x →
      ∃ r ∈ (call sha s.db l).2.rows stream, r.key = key := by
    intro stream key x hx hA
    obtain ⟨r, hr, hk⟩ := ha.appended stream key x hx hA
    exact ⟨r, (heff.rows_mono stream).subset hr, hk⟩
  cases heff with
  | quiet hev hq =>
    constructor
    · intro stream key
      obtain ⟨hC, hR, -⟩ := hq stream key
      simp [List.countP_append, hC, hR, rows_congr hev, ha.written]
    · intro stream key x hx hA
      rcases List.mem_append.mp hx with hx | hx
      · exact hold stream key x hx hA
      · rw [List.mem_singleton.mp hx] at hA
        obtain ⟨r, hr⟩ := Option.ne_none_iff_exists'.mp ((hq stream key).2.2 hA)
        obtain ⟨hmem, hk⟩ := findKey_some hr
        exact ⟨r, rows_congr hev stream ▸ hmem, hk⟩
  | records stream' key' kind data hd hk hev hq =>
    constructor
    · intro stream key
      have hw := ha.written stream key
      have hone := (hq stream key).1
      simp only [List.countP_append, List.countP_singleton, rows_congr hev, rows_record]
      by_cases hst : stream' = stream
      · subst hst
        simp only [if_true, List.countP_append, List.countP_singleton, nextRow,
          decide_eq_true_eq, true_and] at hone ⊢
        simp only [eq_comm (a := key') (b := key)]
        omega
      · simp only [if_neg hst, Ne.symm hst, false_and, if_false] at hone ⊢
        omega
    · intro stream key x hx hA
      rcases List.mem_append.mp hx with hx | hx
      · exact hold stream key x hx hA
      · rw [List.mem_singleton.mp hx] at hA
        obtain ⟨rfl, rfl⟩ := (hq stream key).2 hA
        rw [rows_congr hev, rows_record, if_pos rfl]
        exact ⟨_, List.mem_append_right _ (List.mem_singleton.mpr rfl), rfl⟩

theorem accounted_run (h : Run (step sha) (initial : State F) ls s) :
    Sound F sha s.db ∧ Accounted s := by
  refine h.invariant (I := fun s => Sound F sha s.db ∧ Accounted s) ⟨sound_empty, ?_⟩
    fun s l t hI _ hst => ⟨sound_step hI.1 hst, accounted_step hI.1 hI.2 hst⟩
  constructor
  · intro stream key
    simp [initial, Db.empty, Db.rows]
  · intro stream key x hx
    simp [initial] at hx

end Runs

/-! ## Reading back -/

section Replay

variable {db : Db} {stream key kind : String} {data : Json F} {payload : Value F}

theorem Sound.toEvent_ok (hs : Sound F sha db) {r : Row} (hr : r ∈ db.rows stream) :
    ∃ data : Json F, data.Wf ∧ r.payloadJson = canonical data ∧ toEvent stream r =
      .ok ⟨stream, r.seq, r.key, r.kind, data.sortKeys, r.prevSha, r.eventSha⟩ := by
  obtain ⟨data, hd, hb⟩ := hs.bodies stream r hr
  exact ⟨data, hd, hb, by rw [toEvent, hb, loads_canonical hd]⟩

theorem Sound.read_ok (hs : Sound F sha db) (stream : String) :
    ∃ events : List (AuditEvent F), read sha stream stream db = .ok events ∧
      (∀ e ∈ events, ∃ r ∈ db.rows stream, toEvent stream r = .ok e) ∧
      ∀ r ∈ db.rows stream, ∃ e ∈ events, toEvent stream r = .ok e := by
  have hev : ∀ r ∈ db.rows stream, ∃ e : AuditEvent F, toEvent stream r = .ok e := by
    intro r hr
    obtain ⟨data, -, -, he⟩ := hs.toEvent_ok hr
    exact ⟨_, he⟩
  obtain ⟨es, hes, hback, hforth⟩ := mapM_ok hev
  refine ⟨es, ?_, hback, hforth⟩
  simpa [read, bind, Except.bind, hs.readRows, hs.checkRows] using hes

theorem toEvent_key {r : Row} {e : AuditEvent F} (h : toEvent stream r = .ok e) :
    e.idempotencyKey = r.key := by
  rw [toEvent] at h
  split at h
  next => cases h; rfl
  next => cases h

theorem toEvent_kind {r : Row} {e : AuditEvent F} (h : toEvent stream r = .ok e) :
    e.eventType = r.kind := by
  rw [toEvent] at h
  split at h
  next => cases h; rfl
  next => cases h

theorem Sound.appendOnce_known (hs : Sound F sha db) {e : AuditEvent F} {r : Row}
    (hr : r ∈ db.rows stream) (he : toEvent stream r = .ok e)
    (hp : scrubPayload stream e.idempotencyKey kind payload = .ok data) :
    (e.eventType = kind ∧ SameData e.payload data →
      appendOnce sha stream e.idempotencyKey kind payload db =
        (.ok ({ e with payload := data }, false), db)) ∧
    (¬ (e.eventType = kind ∧ SameData e.payload data) →
      appendOnce sha stream e.idempotencyKey kind payload db =
        (.error (.replayConflict "idempotency key reused for a different event"), db)) := by
  obtain ⟨old, hold, hb, he'⟩ := hs.toEvent_ok hr
  obtain rfl := Except.ok.inj (he.symm.trans he')
  have hsame : SameData old.sortKeys data ↔ r.payloadJson = canonical data := by
    rw [hb, canonical_eq_iff hold (wf_scrubPayload hp), SameData, SameData, sortKeys_sortKeys]
  simp only [appendOnce, hp, transaction, hs.appendData_known (hs.findKey hr), hsame]
  constructor
  · rintro ⟨rfl, hbody⟩
    simp [hbody]
  · intro hne
    rw [if_pos]
    by_cases hk : r.kind = kind
    · exact .inr fun hbody => hne ⟨hk, hbody⟩
    · exact .inl hk

theorem Sound.appendOnce_fresh (hs : Sound F sha db) (hk : db.findKey stream key = none)
    (hp : scrubPayload stream key kind payload = .ok data) :
    ∃ e, (appendOnce sha stream key kind payload db).1 = .ok (e, true) ∧
      e.idempotencyKey = key ∧ e.eventType = kind ∧ e.payload = data := by
  simp only [appendOnce, hp, transaction, hs.appendData_fresh hk]
  exact ⟨_, rfl, rfl, rfl, rfl⟩

theorem transaction_error {α : Type} {body : Db → Except LedgerError (α × Db)} {e : LedgerError}
    (h : (transaction body db).1 = .error e) : (transaction body db).2 = db := by
  rw [transaction] at h ⊢
  split at h
  next => cases h
  next => rfl

theorem appendOnce_error {e : LedgerError}
    (h : (appendOnce sha stream key kind payload db).1 = .error e) :
    (appendOnce sha stream key kind payload db).2 = db := by
  simp only [appendOnce] at h ⊢
  split at h
  next => rfl
  next => exact transaction_error h

theorem noteUnreconciled_error {sessionId cause : String} {e : LedgerError}
    (h : (noteUnreconciled stream sessionId cause db).1 = .error e) :
    (noteUnreconciled stream sessionId cause db).2 = db := by
  rw [noteUnreconciled] at h ⊢
  split
  next => rfl
  next hne => rw [if_neg hne] at h; cases h

theorem reconcileClosed_error {sessionId evidenceKey : String} {e : LedgerError}
    (h : (reconcileClosed F sha stream sessionId evidenceKey db).1 = .error e) :
    (reconcileClosed F sha stream sessionId evidenceKey db).2 = db := by
  rw [reconcileClosed] at h ⊢
  split
  next => rfl
  next hne => rw [if_neg hne] at h; exact transaction_error h

theorem call_error {l : Label F} {e : LedgerError} (h : (call sha db l).1 = .error e) :
    (call sha db l).2 = db := by
  rw [call] at h ⊢
  split
  next => rfl
  next hf =>
    rw [if_neg hf] at h
    cases hq : l.request with
    | appendOnce => rw [hq] at h; exact appendOnce_error (map_error h)
    | noteUnreconciled => rw [hq] at h; exact noteUnreconciled_error (map_error h)
    | reconcileClosed => rw [hq] at h; exact reconcileClosed_error (map_error h)
    | verify => rfl
    | read => rfl

end Replay

/-- What the state of the ledger and the log of the calls so far have in common. -/
structure History (sha : String → String) (s : State F) : Prop where
  chained : ∀ stream, ChainedRows sha stream (s.db.readRows stream)
  grows : ∀ (ls : List (Label F)) t, Run (step sha) s ls t → ∀ stream,
    s.db.readRows stream <+: t.db.readRows stream
  once : ∀ stream key,
    s.log.countP (Creates stream key) + s.log.countP (Reconciles stream key) ≤ 1
  created : ∀ stream key, (∃ x ∈ s.log, Appends stream key x) →
    s.log.countP (Creates stream key) + s.log.countP (Reconciles stream key) = 1
  reads : ∀ stream, ∃ events : List (AuditEvent F), read sha stream stream s.db = .ok events ∧
    (∀ key kind payload (data : Json F), (∀ e ∈ events, e.idempotencyKey ≠ key) →
      scrubPayload stream key kind payload = .ok data →
        ∃ e, (appendOnce sha stream key kind payload s.db).1 = .ok (e, true) ∧
          e.idempotencyKey = key ∧ e.eventType = kind ∧ e.payload = data) ∧
    ∀ e ∈ events, ∀ kind payload (data : Json F),
      scrubPayload stream e.idempotencyKey kind payload = .ok data →
        (e.eventType = kind ∧ SameData e.payload data →
          appendOnce sha stream e.idempotencyKey kind payload s.db =
            (.ok ({ e with payload := data }, false), s.db)) ∧
        (¬ (e.eventType = kind ∧ SameData e.payload data) →
          appendOnce sha stream e.idempotencyKey kind payload s.db =
            (.error (.replayConflict "idempotency key reused for a different event"), s.db))
  raises : ∀ (l : Label F) e, (call sha s.db l).1 = .error e → (call sha s.db l).2 = s.db

theorem history {ls : List (Label F)} {s : State F} (h : Run (step sha) initial ls s) :
    History sha s := by
  obtain ⟨hs, ha⟩ := accounted_run h
  have hcount : ∀ stream key, (s.db.rows stream).countP (·.key = key) =
      ((s.db.rows stream).map (·.key)).count key := by
    intro stream key
    rw [List.count, List.countP_map]
    rfl
  constructor
  · intro stream
    obtain ⟨tail, ht⟩ := hs.chained stream
    rw [hs.readRows]
    exact chainedRows ht
  · intro ms t hrun stream
    rw [hs.readRows, (sound_run hs hrun).readRows]
    exact rows_mono_run hs hrun stream
  · intro stream key
    rw [ha.written, hcount]
    exact List.nodup_iff_count_le_one.mp (hs.keys stream) key
  · rintro stream key ⟨x, hx, hA⟩
    obtain ⟨r, hr, hk⟩ := ha.appended stream key x hx hA
    rw [ha.written, hcount]
    exact List.count_eq_one_of_mem (hs.keys stream) (List.mem_map.mpr ⟨r, hr, hk⟩)
  · intro stream
    obtain ⟨events, hev, hback, hforth⟩ := hs.read_ok stream
    refine ⟨events, hev, ?_, ?_⟩
    · intro key kind payload data hne hp
      refine hs.appendOnce_fresh (findKey_none.mpr ?_) hp
      intro r hr hk
      obtain ⟨e, he, hre⟩ := hforth r hr
      exact hne e he ((toEvent_key hre).trans hk)
    · intro e he kind payload data hp
      obtain ⟨r, hr, hre⟩ := hback e he
      exact hs.appendOnce_known hr hre hp
  · intro l e he
    exact call_error he

def recoveryReplay : List (Label Empty) :=
  [⟨0, .noteUnreconciled "run" "s" "lost", false⟩,
    ⟨1, .reconcileClosed "run" "s" "gone", false⟩,
    ⟨0, .appendOnce "run" "recovery:1:s:gone" "RECOVERY_RECONCILED"
      (.mapping [(some "session_id", .str "s"), (some "evidence_key", .str "gone")]), false⟩]

theorem history_recoveryReplay :
    ∃ s, Run (step fun _ => "digest") initial recoveryReplay s ∧ History (fun _ => "digest") s :=
  ⟨_, run_exec recoveryReplay rfl, history (run_exec recoveryReplay rfl)⟩

/-- The replay succeeds, and no `append_once` ever reports the key as created. -/
theorem recovery_key_never_created :
    ∃ s, Run (step fun _ => "digest") initial recoveryReplay s ∧
      (∃ x ∈ s.log, Appends "run" "recovery:1:s:gone" x) ∧
      s.log.countP (Creates "run" "recovery:1:s:gone") = 0 :=
  ⟨_, run_exec recoveryReplay rfl, by decide +kernel, by decide +kernel⟩

end SubagentBridge.AuditLedger
