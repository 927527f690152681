import SubagentBridge.Recovery.AcceptedHandoff

/-! What crash reconciliation leaves to workers whose processes are gone. -/

namespace SubagentBridge.Supervisor

open Library Domain TeamStore

variable {F : Type}

structure KeyedSessions (db : Db F) : Prop where
  nodup : db.sessions.keys.Nodup
  ids : ∀ p ∈ db.sessions, p.2.sessionId = p.1

def Dead (w : World F) (config : WorkerConfig F) : Prop :=
  ∀ pid, config.pid = some pid → 0 < pid →
    w.answer (.isProcessAlive pid config.processCreateTime) = .ok false

def Stranded (w : World F) (db : Db F) (teamId d : String) (session : AgentSession F) : Prop :=
  ∃ row, db.queue.get? d = some row ∧ row.teamId = teamId ∧ row.status.active = true ∧
    db.sessions.get? row.toSessionId = some session ∧ session.role = .worker ∧
    Dead w session.config

def Retires (w : World F) (session : AgentSession F) : Prop :=
  session.role = .worker ∧ Dead w session.config ∧ session.status ∈ [.running, .paused, .idle]

/-! ## Rows that are given up -/

structure GivenUp (row row' : QueueRow F) : Prop where
  dispatchId : row'.dispatchId = row.dispatchId
  teamId : row'.teamId = row.teamId
  toSessionId : row'.toSessionId = row.toSessionId
  inactive : row'.status.active = false

def GivesUp (p : QueueRow F → Prop) (db db' : Db F) : Prop :=
  ∀ d, Option.Rel (fun row row' => (p row → GivenUp row row') ∧ (¬ p row → row' = row))
    (db.queue.get? d) (db'.queue.get? d)

section GivesUp

variable {p q : QueueRow F → Prop} {db db' db'' : Db F}

theorem givesUp_none (hp : ∀ row, ¬ p row) (h : db'.queue = db.queue) : GivesUp p db db' := by
  intro d
  rw [h]
  cases db.queue.get? d with
  | none => exact .none
  | some row => exact .some ⟨fun h => (hp row h).elim, fun _ => rfl⟩

theorem GivesUp.trans (h : GivesUp p db db') (h' : GivesUp q db' db'')
    (hq : ∀ row, q row → row.status.active = true) :
    GivesUp (fun row => p row ∨ q row) db db'' := by
  intro d
  have hd := h d
  have hd' := h' d
  revert hd hd'
  generalize db.queue.get? d = x, db'.queue.get? d = y, db''.queue.get? d = z
  intro hd hd'
  cases hd with
  | none =>
    cases hd'
    exact .none
  | @some row row' hr =>
    cases hd' with
    | @some _ row'' hr' =>
      refine .some ⟨fun hpq => ?_, fun hpq => ?_⟩
      · by_cases hp : p row
        · have hgone := hr.1 hp
          have hsame := hr'.2 fun hq' => by
            have hact := hq row' hq'
            rw [hgone.inactive] at hact
            cases hact
          rw [hsame]
          exact hgone
        · obtain rfl := hr.2 hp
          exact hr'.1 (hpq.resolve_left hp)
      · obtain rfl := hr.2 fun hp => hpq (.inl hp)
        exact hr'.2 fun hq' => hpq (.inr hq')

theorem GivesUp.kept (h : GivesUp p db db') {d : String} {row : QueueRow F}
    (hrow : db.queue.get? d = some row) (hp : ¬ p row) : db'.queue.get? d = some row := by
  have hd := h d
  rw [hrow] at hd
  generalize db'.queue.get? d = y at hd ⊢
  cases hd with
  | some hr => rw [hr.2 hp]

theorem GivesUp.was (h : GivesUp p db db') {d : String} {row' : QueueRow F}
    (hrow : db'.queue.get? d = some row') : ∃ row, db.queue.get? d = some row ∧
      (p row → GivenUp row row') ∧ (¬ p row → row' = row) := by
  have hd := h d
  rw [hrow] at hd
  generalize db.queue.get? d = x at hd ⊢
  cases hd with
  | some hr => exact ⟨_, rfl, hr⟩

theorem GivesUp.congr (h : GivesUp p db db')
    (hpq : ∀ d row, db.queue.get? d = some row → (q row ↔ p row)) : GivesUp q db db' := by
  intro d
  have hd := h d
  cases hrow : db.queue.get? d with
  | none =>
    rw [hrow] at hd
    generalize db'.queue.get? d = y at hd
    cases hd
    exact .none
  | some row =>
    rw [hrow] at hd
    generalize db'.queue.get? d = y at hd
    have hiff := hpq d row hrow
    cases hd with
    | some hr =>
      exact .some ⟨fun hq => hr.1 (hiff.mp hq), fun hq => hr.2 fun hp => hq (hiff.mpr hp)⟩

end GivesUp

/-! ## The loop over the items of a worker -/

section Items

variable [LinearOrder F] [FloatText F] {B : Builtins F} {w : World F} {db db' : Db F}
variable {β : Type} {sessionId teamId : String} {mark : Bool} {acc acc' : Reconciled}
  {item : QueueItem F}

omit [LinearOrder F] [FloatText F] in
theorem abandoned_inactive (mark : Bool) (item : QueueItem F) :
    (abandoned mark item).active = false := by
  rw [abandoned]
  split <;> rfl

omit [LinearOrder F] in
theorem fields_of_read {row : QueueRow F} (h : rowToQueueItem row = .ok item) :
    item.dispatchId = row.dispatchId ∧ item.toSessionId = row.toSessionId ∧
      item.status = row.status := by
  rw [rowToQueueItem] at h
  split at h <;> cases h
  exact ⟨rfl, rfl, rfl⟩

omit [LinearOrder F] in
theorem givesUp_save {row : QueueRow F} {saved : QueueItem F} (hk : Keyed db)
    (hrow : db.queue.get? saved.dispatchId = some row) (hst : saved.status.active = false) :
    GivesUp (fun r => r.dispatchId = saved.dispatchId) db (db.saveQueueItem saved) := by
  intro d
  rw [Db.saveQueueItem, Db.setRow, hrow]
  simp only [Dict.get?_set]
  split
  next hd =>
    subst hd
    rw [hrow]
    exact .some ⟨fun _ => ⟨rfl, rfl, rfl, hst⟩, fun hne => (hne (hk.id_of_get? hrow)).elim⟩
  next hd =>
    cases hr : db.queue.get? d with
    | none => exact .none
    | some r => exact .some ⟨fun he => (hd (he.symm.trans (hk.id_of_get? hr))).elim, fun _ => rfl⟩

theorem reconcileItem_ok (hk : Keyed db)
    (h : (reconcileItem sessionId mark acc item).solo (alone B w) db = (.ok acc', db'))
    {row : QueueRow F} (hrow : db.queue.get? item.dispatchId = some row)
    (hread : rowToQueueItem row = .ok item) :
    db'.sessions = db.sessions ∧ GivesUp (fun r => r.dispatchId = item.dispatchId ∧
      r.toSessionId = sessionId ∧ r.status.active = true) db db' := by
  obtain ⟨-, hto, hst⟩ := fields_of_read hread
  rw [reconcileItem] at h
  split at h
  next hcond =>
    obtain ⟨updatedAt, s, hnow, h⟩ := solo_ran h
    obtain ⟨_, s', hsave, h⟩ := solo_ran h
    obtain rfl := (Prod.mk.inj hnow).2
    obtain rfl := (Prod.mk.inj hsave).2
    obtain rfl := (Prod.mk.inj h).2
    refine ⟨rfl, GivesUp.congr
      (givesUp_save hk hrow (by exact abandoned_inactive mark item)) fun d r hr => ?_⟩
    constructor
    · exact fun h => h.1
    · intro hd
      have hd' : d = item.dispatchId := (hk.id_of_get? hr).symm.trans hd
      obtain rfl := Option.some.inj (hr.symm.trans (hd' ▸ hrow))
      exact ⟨hd, hto ▸ hcond.1, hst ▸ hcond.2⟩
  next hcond =>
    cases h
    refine ⟨rfl, GivesUp.congr (givesUp_none (fun _ => id) rfl) fun d r hr => ?_⟩
    refine iff_of_false (fun h => hcond ?_) id
    have hd' : d = item.dispatchId := (hk.id_of_get? hr).symm.trans h.1
    obtain rfl := Option.some.inj (hr.symm.trans (hd' ▸ hrow))
    exact ⟨hto.trans h.2.1, hst ▸ h.2.2⟩

theorem exec_keyed (p : Call F β) (hk : Keyed db) : Keyed (p.solo (alone B w) db).2 :=
  Proc.solo_keeps (I := Keyed) (fun _ _ hk => keyed_exec hk) p hk

def Current (db : Db F) (items : List (QueueItem F)) : Prop :=
  ∀ item ∈ items, ∃ row, db.queue.get? item.dispatchId = some row ∧ rowToQueueItem row = .ok item

theorem reconcileItems_ok {items : List (QueueItem F)} (hk : Keyed db) (hc : Current db items)
    (hn : (items.map (·.dispatchId)).Nodup)
    (h : (Proc.fold (reconcileItem sessionId mark) acc items).solo
      (alone B w) db = (.ok acc', db')) :
    db'.sessions = db.sessions ∧
      GivesUp (fun r => (∃ item ∈ items, r.dispatchId = item.dispatchId) ∧
      r.toSessionId = sessionId ∧ r.status.active = true) db db' := by
  induction items generalizing acc db with
  | nil =>
    obtain rfl := (Prod.mk.inj h).2
    exact ⟨rfl, givesUp_none (by simp) rfl⟩
  | cons item items ih =>
    obtain ⟨acc₁, db₁, hitem, hrest⟩ := Proc.solo_bind_ok.mp h
    obtain ⟨row, hrow, hread⟩ := hc item (by simp)
    obtain ⟨hsess, hgive⟩ := reconcileItem_ok hk hitem hrow hread
    have hk₁ : Keyed db₁ := by
      have hk₁ := exec_keyed (B := B) (w := w) (reconcileItem sessionId mark acc item) hk
      rwa [hitem] at hk₁
    obtain ⟨hnew, hn⟩ := List.nodup_cons.mp hn
    have hc₁ : Current db₁ items := by
      intro other hother
      obtain ⟨r, hr, hread⟩ := hc other (by simp [hother])
      refine ⟨r, hgive.kept hr fun h => hnew ?_, hread⟩
      exact List.mem_map.mpr ⟨other, hother, (hk.id_of_get? hr).symm.trans h.1⟩
    obtain ⟨hsess', hgive'⟩ := ih hk₁ hc₁ hn hrest
    refine ⟨hsess'.trans hsess, (hgive.trans hgive' fun _ h => h.2.2).congr fun d r hr => ?_⟩
    simp only [List.mem_cons, exists_eq_or_imp]
    tauto

theorem listed_items {items : List (QueueItem F)} (hk : Keyed db)
    (h : db.listQueueByTeam teamId = .ok items) :
    Current db items ∧ (items.map (·.dispatchId)).Nodup ∧
      ∀ d row, db.queue.get? d = some row →
        ((∃ item ∈ items, row.dispatchId = item.dispatchId) ↔ row.teamId = teamId) := by
  have hids := mapM_keys (·.dispatchId) (·.dispatchId)
    (fun _ _ => dispatchId_of_read) h
  refine ⟨fun item hitem => ?_, hids ▸ nodup_rowsByTeam hk teamId, fun d row hrow => ?_⟩
  · obtain ⟨row, hrow, hread⟩ := mem_mapM h hitem
    obtain ⟨d, hmem⟩ := (mem_rowsByTeam.mp hrow).1
    have hd : item.dispatchId = d := (dispatchId_of_read hread).trans (hk.ids _ hmem)
    exact ⟨row, hd ▸ Dict.get?_of_mem hk.nodup hmem, hread⟩
  · have hmem : (∃ item ∈ items, row.dispatchId = item.dispatchId) ↔
        row.dispatchId ∈ (db.rowsByTeam teamId).map (·.dispatchId) := by
      rw [← hids, List.mem_map]
      exact exists_congr fun item => and_congr_right fun _ => eq_comm
    rw [hmem, List.mem_map]
    constructor
    · rintro ⟨other, hother, hd⟩
      obtain ⟨⟨d', hmem⟩, hteam⟩ := mem_rowsByTeam.mp hother
      have hd' : d' = d := (hk.ids _ hmem).symm.trans (hd.trans (hk.id_of_get? hrow))
      have hget := Dict.get?_of_mem hk.nodup hmem
      rw [hd'] at hget
      obtain rfl := Option.some.inj (hrow.symm.trans hget)
      exact hteam
    · intro hteam
      exact ⟨row, mem_rowsByTeam.mpr ⟨⟨d, Dict.mem_of_get? hrow⟩, hteam⟩, rfl⟩

/-! ## The loop over the sessions -/

def binding (session : AgentSession F) : AgentRole × String × WorkerConfig F :=
  (session.role, session.teamId, session.config)

def SameWorkers (db db' : Db F) : Prop :=
  ∀ id, (db'.sessions.get? id).map binding = (db.sessions.get? id).map binding

omit [LinearOrder F] [FloatText F] in
theorem saveSession_sameWorkers {session : AgentSession F}
    (h : (db.sessions.get? session.sessionId).map binding = some (binding session)) :
    SameWorkers db (db.saveSession session) := by
  intro id
  obtain ⟨row, hrow, hb⟩ := Option.map_eq_some_iff.mp h
  simp only [Db.saveSession, hrow, Dict.get?_set]
  split
  next hid =>
    subst hid
    rw [hrow]
    simp only [binding, Prod.mk.injEq] at hb
    simp [binding, hb]
  next => rfl

theorem isAlive_ok {config : WorkerConfig F} {alive : Bool}
    (h : (isAlive config).solo (alone B w) db = (.ok alive, db')) :
    db' = db ∧ (alive = false ↔ Dead w config) := by
  rw [isAlive] at h
  cases hpid : config.pid.filter (0 < ·) with
  | none =>
    rw [hpid] at h
    cases h
    refine ⟨rfl, iff_of_true rfl fun pid hp hpos => ?_⟩
    rw [hp, Option.filter_some, if_pos (decide_eq_true hpos)] at hpid
    cases hpid
  | some pid =>
    rw [hpid] at h
    obtain ⟨hp, hpos⟩ := Option.filter_eq_some_iff.mp hpid
    change (perform (.isProcessAlive pid _)).solo (alone B w) db = _ at h
    rw [perform, Proc.solo_op, alone, exec_answer ⟨rfl, rfl⟩] at h
    obtain ⟨hans, rfl⟩ := Prod.mk.inj h
    refine ⟨rfl, fun halive pid' hp' _ => ?_, fun hdead => ?_⟩
    · obtain rfl := Option.some.inj (hp.symm.trans hp')
      rw [hans, halive]
    · have hans' := hdead pid hp (of_decide_eq_true hpos)
      exact Except.ok.inj (hans.symm.trans hans')

theorem reconcileSession_ok {session : AgentSession F} (hk : Keyed db)
    (hs : (db.sessions.get? session.sessionId).map binding = some (binding session))
    (h : (reconcileSession teamId mark acc session).solo (alone B w) db = (.ok acc', db')) :
    SameWorkers db db' ∧ GivesUp (fun r => r.teamId = teamId ∧ r.status.active = true ∧
      r.toSessionId = session.sessionId ∧ Retires w session) db db' := by
  rw [reconcileSession] at h
  split at h
  next hrole =>
    obtain ⟨alive, s, halive, hrest⟩ := Proc.solo_bind_ok.mp h
    obtain ⟨hsame, hdead⟩ := isAlive_ok halive
    rw [hsame] at hrest
    split at hrest
    next hcond =>
      obtain ⟨updatedAt, s₁, hnow, hrest⟩ := solo_ran hrest
      obtain ⟨_, s₂, hsave, hrest⟩ := solo_ran hrest
      obtain ⟨items, s₃, hlist, hrest⟩ := solo_ran hrest
      obtain rfl := (Prod.mk.inj hnow).2
      have hsaved : SameWorkers db s₂ := by
        rw [← (Prod.mk.inj hsave).2]
        exact saveSession_sameWorkers hs
      have hqueue : s₂.queue = db.queue := (Prod.mk.inj hsave).2 ▸ rfl
      have hk₂ : Keyed s₂ := ⟨hqueue ▸ hk.nodup, hqueue ▸ hk.ids⟩
      obtain ⟨hitems, rfl⟩ : s₂.listQueueByTeam teamId = .ok items ∧ s₂ = s₃ := Prod.mk.inj hlist
      obtain ⟨hc, hn, hteam⟩ := listed_items hk₂ hitems
      obtain ⟨hsess, hgive⟩ := reconcileItems_ok hk₂ hc hn hrest
      have hretires : Retires w session := ⟨hrole, hdead.mp hcond.1, hcond.2⟩
      refine ⟨fun id => by rw [hsess]; exact hsaved id, ?_⟩
      rw [GivesUp, hqueue] at hgive
      refine GivesUp.congr hgive fun d row hrow => ?_
      have hlisted := hteam d row (hqueue ▸ hrow)
      constructor
      · rintro ⟨ht, hact, hto, -⟩
        exact ⟨hlisted.mpr ht, hto, hact⟩
      · rintro ⟨hitem, hto, hact⟩
        exact ⟨hlisted.mp hitem, hact, hto, hretires⟩
    next hcond =>
      obtain rfl := (Prod.mk.inj hrest).2
      refine ⟨fun _ => rfl, givesUp_none (fun row hrow => hcond ?_) rfl⟩
      exact ⟨hdead.mpr hrow.2.2.2.2.1, hrow.2.2.2.2.2⟩
  next hrole =>
    obtain rfl := (Prod.mk.inj h).2
    exact ⟨fun _ => rfl, givesUp_none (fun row hrow => hrole hrow.2.2.2.1) rfl⟩

theorem reconcileSessions_ok {sessions : List (AgentSession F)} (hk : Keyed db)
    (hs : ∀ session ∈ sessions,
      (db.sessions.get? session.sessionId).map binding = some (binding session))
    (h : (Proc.fold (reconcileSession teamId mark) acc sessions).solo (alone B w) db =
      (.ok acc', db')) :
    SameWorkers db db' ∧ GivesUp (fun r => r.teamId = teamId ∧ r.status.active = true ∧
      ∃ session ∈ sessions, r.toSessionId = session.sessionId ∧ Retires w session) db db' := by
  induction sessions generalizing acc db with
  | nil =>
    obtain rfl := (Prod.mk.inj h).2
    exact ⟨fun _ => rfl, givesUp_none (by simp) rfl⟩
  | cons session sessions ih =>
    obtain ⟨acc₁, db₁, hsession, hrest⟩ := Proc.solo_bind_ok.mp h
    obtain ⟨hsame, hgive⟩ := reconcileSession_ok hk (hs session (by simp)) hsession
    have hk₁ : Keyed db₁ := by
      have hk₁ := exec_keyed (B := B) (w := w) (reconcileSession teamId mark acc session) hk
      rwa [hsession] at hk₁
    obtain ⟨hsame', hgive'⟩ := ih hk₁ (fun other hother =>
      (hsame other.sessionId).trans (hs other (by simp [hother]))) hrest
    refine ⟨fun id => (hsame' id).trans (hsame id), ?_⟩
    refine (hgive.trans hgive' fun _ h => h.2.1).congr fun d r hr => ?_
    simp only [List.mem_cons, or_and_right, exists_or, exists_eq_left]
    tauto

end Items

section Complete

variable [LinearOrder F] [FloatText F] {B : Builtins F} {w : World F} {db db' : Db F}
variable {teamId : String} {mark : Bool} {reply : Reply F}

omit [FloatText F] in
theorem mem_listSessionsByTeam (hs : KeyedSessions db) {session : AgentSession F} :
    session ∈ db.listSessionsByTeam teamId ↔
      db.sessions.get? session.sessionId = some session ∧ session.teamId = teamId := by
  rw [Db.listSessionsByTeam, List.mem_insertionSort, List.mem_filter, decide_eq_true_iff,
    List.mem_map]
  refine and_congr_left fun _ => ⟨?_, fun h => ⟨_, Dict.mem_of_get? h, rfl⟩⟩
  rintro ⟨⟨id, other⟩, hp, hother⟩
  obtain rfl : other = session := hother
  obtain rfl : other.sessionId = id := hs.ids _ hp
  exact Dict.get?_of_mem hs.nodup hp

omit [LinearOrder F] [FloatText F] in
theorem Stranded.of_same {d : String} {session : AgentSession F} {row : QueueRow F}
    (hsame : ∀ id, (db'.sessions.get? id).map binding = (db.sessions.get? id).map binding)
    (hrow : db'.queue.get? d = some row) (hteam : row.teamId = teamId)
    (hact : row.status.active = true) (hsession : db.sessions.get? row.toSessionId = some session)
    (hrole : session.role = .worker) (hdead : Dead w session.config) :
    ∃ session', binding session' = binding session ∧ Stranded w db' teamId d session' := by
  have hget := hsame row.toSessionId
  rw [hsession] at hget
  obtain ⟨session', hsession', hb⟩ := Option.map_eq_some_iff.mp hget
  have hb' := hb
  simp only [binding, Prod.mk.injEq] at hb'
  obtain ⟨hrole', -, hconfig⟩ := hb'
  exact ⟨session', hb, row, hrow, hteam, hact, hsession', hrole' ▸ hrole, hconfig ▸ hdead⟩

theorem reconcileTeam_ok (hk : Keyed db) (hs : KeyedSessions db)
    (h : (reconcileTeamAfterCrash teamId mark).solo (alone B w) db = (.ok reply, db')) :
    SameWorkers db db' ∧ GivesUp (fun r => r.teamId = teamId ∧ r.status.active = true ∧
      ∃ session ∈ db.listSessionsByTeam teamId, r.toSessionId = session.sessionId ∧
        Retires w session) db db' := by
  obtain ⟨sessions, s, hlist, hrest⟩ := solo_ran h
  obtain ⟨acc, s', hfold, hret⟩ := Proc.solo_bind_ok.mp hrest
  obtain rfl := (Prod.mk.inj hret).2
  obtain ⟨hsessions, rfl⟩ := Prod.mk.inj hlist
  obtain rfl := Except.ok.inj hsessions
  exact reconcileSessions_ok hk (fun session hmem => by
    rw [((mem_listSessionsByTeam hs).mp hmem).1, Option.map_some]) hfold

/-- After reconciliation nobody waits for a dead worker, if and only if every dead worker with
work to do belongs to the team and counts as one that runs. -/
theorem reconciled_iff (hk : Keyed db) (hs : KeyedSessions db)
    (h : (reconcileTeamAfterCrash teamId mark).solo (alone B w) db = (.ok reply, db')) :
    (∀ d session, ¬ Stranded w db' teamId d session) ↔ ∀ d session,
      Stranded w db teamId d session →
        session.teamId = teamId ∧ session.status ∈ [.running, .paused, .idle] := by
  obtain ⟨hsame, hgive⟩ := reconcileTeam_ok hk hs h
  constructor
  · rintro hnone d session ⟨row, hrow, hteam, hact, hsession, hrole, hdead⟩
    by_contra hcond
    have hkept := hgive.kept hrow fun ⟨_, _, other, hother, hto, hretires⟩ => by
      obtain ⟨hget, hother⟩ := (mem_listSessionsByTeam hs).mp hother
      obtain rfl := Option.some.inj (hsession.symm.trans (hto ▸ hget))
      exact hcond ⟨hother, hretires.2.2⟩
    obtain ⟨session', -, hstranded⟩ :=
      Stranded.of_same hsame hkept hteam hact hsession hrole hdead
    exact hnone d session' hstranded
  · rintro hcond d session ⟨row', hrow', hteam, hact, hsession, hrole, hdead⟩
    obtain ⟨row, hrow, hgone, hkept⟩ := hgive.was hrow'
    have hnot : ¬ _ := fun hp => by
      have hinactive := (hgone hp).inactive
      rw [hact] at hinactive
      cases hinactive
    obtain rfl := hkept hnot
    obtain ⟨session₀, -, hstranded⟩ := Stranded.of_same
      (fun id => (hsame id).symm) hrow hteam hact hsession hrole hdead
    obtain ⟨hteam₀, hstatus₀⟩ := hcond d session₀ hstranded
    obtain ⟨row₀, hrow₀, -, -, hsession₀, hrole₀, hdead₀⟩ := hstranded
    obtain rfl := Option.some.inj (hrow.symm.trans hrow₀)
    have hid : session₀.sessionId = row'.toSessionId := hs.ids _ (Dict.mem_of_get? hsession₀)
    refine hnot ⟨hteam, hact, session₀, ?_, hid.symm, hrole₀, hdead₀, hstatus₀⟩
    exact (mem_listSessionsByTeam hs).mpr ⟨hid.symm ▸ hsession₀, hteam₀⟩

end Complete

section Sample

/-- What `reap_dead_workers` and `reconcile_rehydrated_sessions` leave of a dead worker in the
store. -/
def reapWorker (workerId : String) : Call F Unit := do
  match ← perform (.loadSession workerId) with
  | none => return ()
  | some session => do
    let updatedAt ← perform .now
    perform (.saveSession { session with status := .failed, updatedAt })

def sampleAfter {α : Type} (p : Call Int α) (db : Db Int) : Db Int :=
  (p.solo (alone sampleBuiltins (sampleWorld 1)) db).2

theorem keyedSessions_sampleDb (items : List (QueueItem Int)) : KeyedSessions (sampleDb items) where
  nodup := by
    change ["lead", "worker"].Nodup
    decide
  ids p hp := by
    rcases List.mem_cons.mp hp with rfl | hp
    · rfl
    · obtain rfl := List.mem_singleton.mp hp
      rfl

theorem reconciled_alone : ¬ ∃ d session, Stranded (sampleWorld 1)
    (sampleAfter (reconcileTeamAfterCrash "t" false) (sampleDb [sampleItem "d1" .running none]))
    "t" d session := by
  obtain ⟨reply, db', hr⟩ : ∃ reply db', (reconcileTeamAfterCrash "t" false).solo
      (alone sampleBuiltins (sampleWorld 1)) (sampleDb [sampleItem "d1" .running none]) =
        (.ok reply, db') := ⟨_, _, rfl⟩
  rw [sampleAfter, hr]
  rintro ⟨d, session, hstranded⟩
  refine (reconciled_iff (keyed_sampleDb _ (by decide)) (keyedSessions_sampleDb _) hr).mpr ?_
    d session hstranded
  rintro d session ⟨row, -, -, -, hsession, -⟩
  rcases List.mem_cons.mp (Dict.mem_of_get? hsession) with h | h
  · obtain rfl := (Prod.mk.inj h).2
    exact ⟨rfl, by decide⟩
  · obtain rfl := (Prod.mk.inj (List.mem_singleton.mp h)).2
    exact ⟨rfl, by decide⟩

/-- A worker that has been reaped keeps its item through the reconciliation. -/
theorem reaped_stranded : ∃ reply db', (reconcileTeamAfterCrash "t" false).solo
      (alone sampleBuiltins (sampleWorld 1))
      (sampleAfter (reapWorker "worker") (sampleDb [sampleItem "d1" .running none])) =
        (.ok reply, db') ∧ ∃ session, Stranded (sampleWorld 1) db' "t" "d1" session := by
  refine ⟨_, _, rfl, _, _, rfl, rfl, rfl, rfl, rfl, fun pid hpid => ?_⟩
  cases hpid

end Sample

end SubagentBridge.Supervisor
