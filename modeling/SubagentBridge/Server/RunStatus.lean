import SubagentBridge.Server.Deeds

/-! The statuses in which a run stays: completed, and then with all of its tasks verified, or
cancelled. -/

namespace SubagentBridge.Server

open Library Domain Planner Qa Team SqliteStore Execution

variable {B : Type} {api : BudgetApi B} {host : Host}

def isSettled (status : RunStatus) : Bool := status ∈ [.completed, .cancelled]

def InMemory (s : State B) (runId : String) (status : RunStatus) : Prop :=
  ∃ r, s.memory.runs.get? runId = some r ∧ r.status = status

def Stored (s : State B) (runId : String) (status : RunStatus) : Prop :=
  ∃ r, s.db.runs.get? runId = some r ∧ r.status = status

structure Absorbs (s s' : State B) : Prop where
  memory : ∀ id status, isSettled status = true → InMemory s id status → InMemory s' id status
  db : ∀ id status, isSettled status = true → Stored s id status → Stored s' id status

def CompletedVerified (s : State B) : Prop :=
  ∀ id, InMemory s id .completed ∨ Stored s id .completed → AllVerified s id

structure Sound (s : State B) : Prop where
  tidy : Tidy s
  /-- what is stored as settled is not known otherwise in memory -/
  agree : ∀ id status, isSettled status = true → Stored s id status →
    ∀ r, s.memory.runs.get? id = some r → r.status = status
  completed : CompletedVerified s

section Steps

variable {rights : Rights} {runId : String} {s s' : State B} {o : Op B}

theorem Absorbs.refl : Absorbs s s := ⟨fun _ _ _ => id, fun _ _ _ => id⟩

theorem Absorbs.trans {s'' : State B} (h : Absorbs s s') (h' : Absorbs s' s'') : Absorbs s s'' :=
  ⟨fun id status hs hm => h'.memory id status hs (h.memory id status hs hm),
    fun id status hs hm => h'.db id status hs (h.db id status hs hm)⟩

structure Settles (id : String) (s s' : State B) : Prop where
  memory : ∀ status, isSettled status = true → InMemory s id status → InMemory s' id status
  db : ∀ status, isSettled status = true → Stored s id status → Stored s' id status
  agree : ∀ status, isSettled status = true → Stored s' id status →
    ∀ r, s'.memory.runs.get? id = some r → r.status = status
  completed : InMemory s' id .completed ∨ Stored s' id .completed → AllVerified s' id

theorem inMemory_none (h : s.memory.runs.get? runId = none) (status : RunStatus) :
    ¬ InMemory s runId status := by
  simp [InMemory, h]

theorem inMemory_some {r : RunRecord} (h : s.memory.runs.get? runId = some r)
    {status : RunStatus} : InMemory s runId status ↔ r.status = status := by
  simp [InMemory, h]

theorem stored_none (h : s.db.runs.get? runId = none) (status : RunStatus) :
    ¬ Stored s runId status := by
  simp [Stored, h]

theorem stored_some {r : RunRecord} (h : s.db.runs.get? runId = some r)
    {status : RunStatus} : Stored s runId status ↔ r.status = status := by
  simp [Stored, h]

theorem Sound.settles (h : Sound s) (hmem : s'.memory.runs.get? runId = s.memory.runs.get? runId)
    (hdb : s'.db.runs.get? runId = s.db.runs.get? runId)
    (hver : InMemory s runId .completed ∨ Stored s runId .completed → AllVerified s' runId) :
    Settles runId s s' := by
  have hin (status : RunStatus) : InMemory s' runId status ↔ InMemory s runId status := by
    simp only [InMemory, hmem]
  have hst (status : RunStatus) : Stored s' runId status ↔ Stored s runId status := by
    simp only [Stored, hdb]
  refine ⟨fun _ _ => (hin _).mpr, fun _ _ => (hst _).mpr, fun status hs hdb' r hr => ?_,
    fun hc => hver (hc.imp (hin _).mp (hst _).mp)⟩
  exact h.agree runId status hs ((hst _).mp hdb') r (hmem ▸ hr)

theorem Sound.not_completed (h : Sound s) (hun : Unfinished s runId) :
    ¬ (InMemory s runId .completed ∨ Stored s runId .completed) := by
  obtain ⟨run, hrun, hne⟩ := hun
  rintro (⟨r, hr, hst⟩ | hst)
  · cases hrun.symm.trans hr
    exact hne hst
  · exact hne (h.agree _ _ rfl hst run hrun)

theorem mem_loadTasksForRun {db : Db} {t : TaskRecord} : t ∈ db.loadTasksForRun runId ↔
    t.runId = runId ∧ ∃ p ∈ db.tasks, p.2 = t := by
  simp only [Db.loadTasksForRun, List.mem_filter, List.mem_map, decide_eq_true_eq, and_comm]

theorem Elsewhere.allVerified {id : String} (he : Elsewhere runId s s') (ht : Tidy s)
    (ht' : Tidy s') (hne : id ≠ runId) (h : AllVerified s id) : AllVerified s' id := by
  intro t hmem
  rcases List.mem_append.mp hmem with hmem | hmem
  · rw [Memory.taskRecords, he.tasks id hne] at hmem
    exact h t (List.mem_append_left _ hmem)
  · obtain ⟨hrun, p, hp, rfl⟩ := mem_loadTasksForRun.mp hmem
    have hget := Dict.get?_of_mem ht'.rowKeys hp
    have hold {t₀ : TaskRecord} (h₀ : s.db.tasks.get? p.1 = some t₀) (hrun₀ : t₀.runId = id) :
        t₀.status = .verified :=
      h t₀ (List.mem_append_right _ (mem_loadTasksForRun.mpr ⟨hrun₀, _, Dict.mem_of_get? h₀, rfl⟩))
    cases hfirst : isFirst p.1 with
    | false => exact hold ((he.rows _ _ hfirst (hrun ▸ hne)).mp hget) hrun
    | true =>
      -- a first task is never verified
      obtain ⟨t₀, h₀, hrun₀⟩ := he.older _ _ hget (hrun ▸ hne)
      have hver := hold h₀ (hrun₀.trans hrun)
      obtain ⟨hid, ⟨hrun', ho⟩, -⟩ := ht.rows _ _ h₀
      rcases ho with ho | ⟨-, hst | hst⟩
      · rw [not_isFirst hrun' (hid ▸ ho)] at hfirst
        cases hfirst
      · rw [hst] at hver
        cases hver
      · rw [hst] at hver
        cases hver

theorem settles_of_memory {r : RunRecord}
    (hr : s'.memory.runs.get? runId = some r)
    (hdb : s'.db.runs.get? runId = s.db.runs.get? runId)
    (hkept : ∀ status, isSettled status = true → InMemory s runId status → r.status = status)
    (hagree : ∀ status, isSettled status = true → Stored s runId status → r.status = status)
    (hver : r.status = .completed → AllVerified s' runId) : Settles runId s s' := by
  have hst (status : RunStatus) : Stored s' runId status ↔ Stored s runId status := by
    simp only [Stored, hdb]
  refine ⟨fun status hs hin => (inMemory_some hr).mpr (hkept status hs hin),
    fun _ _ => (hst _).mpr, fun status hs hst' r' hr' => ?_, fun hc => hver ?_⟩
  · cases hr.symm.trans hr'
    exact hagree status hs ((hst _).mp hst')
  · rcases hc with hin | hst'
    · exact (inMemory_some hr).mp hin
    · exact hagree _ rfl ((hst _).mp hst')

theorem settles_of_db {r : RunRecord} (hr : s'.db.runs.get? runId = some r)
    (hmem : s'.memory.runs.get? runId = s.memory.runs.get? runId)
    (hkept : ∀ status, isSettled status = true → Stored s runId status → r.status = status)
    (hagree : ∀ r', s.memory.runs.get? runId = some r' → r'.status = r.status)
    (hver : r.status = .completed → AllVerified s' runId) : Settles runId s s' := by
  have hin (status : RunStatus) : InMemory s' runId status ↔ InMemory s runId status := by
    simp only [InMemory, hmem]
  refine ⟨fun _ _ => (hin _).mpr, fun status hs hst => (stored_some hr).mpr (hkept status hs hst),
    fun status _ hst r' hr' => ?_, fun hc => hver ?_⟩
  · exact (hagree r' (hmem ▸ hr')).trans ((stored_some hr).mp hst)
  · rcases hc with ⟨r', hr', hst⟩ | hst
    · exact (hagree r' (hmem ▸ hr')).symm.trans hst
    · exact (stored_some hr).mp hst

theorem Look.settles (h : Sound s) (hl : Look runId s s' o) : Settles runId s s' := by
  cases hl with
  | idle _ hs =>
    refine h.settles (by rw [hs.runs]) (by rw [hs.dbRuns]) fun hc => ?_
    have hver := h.completed _ hc
    rw [AllVerified, Memory.taskRecords, hs.tasks, Db.loadTasksForRun, hs.rows]
    exact hver
  | run _ hs =>
    subst hs
    rw [cacheRun]
    split
    next r hnone hr =>
      have hstored {status : RunStatus} (hst : Stored s runId status) : r.status = status := by
        obtain ⟨r', hr', hst⟩ := hst
        cases hr.symm.trans hr'
        exact hst
      refine ⟨fun status _ hin => ?_, fun _ _ => id, fun status _ hst r' hr' => ?_, fun hc => ?_⟩
      · obtain ⟨r', hr', -⟩ := hin
        rw [hnone] at hr'
        cases hr'
      · rw [Dict.get?_set, if_pos rfl] at hr'
        cases hr'
        exact hstored hst
      · apply h.completed runId
        rcases hc with ⟨r', hr', hst⟩ | hst
        · rw [Dict.get?_set, if_pos rfl] at hr'
          cases hr'
          exact .inr ⟨r, hr, hst⟩
        · exact .inr hst
    next => exact h.settles rfl rfl (h.completed _)
  | tasks _ hs =>
    subst hs
    rw [cacheTasks]
    split
    next =>
      refine h.settles rfl rfl fun hc t ht => h.completed _ hc t (List.mem_append_right _ ?_)
      simpa [Memory.taskRecords, Dict.get?_set] using ht
    next => exact h.settles rfl rfl (h.completed _)

theorem upsertRun_status (db : Db) (r : RunRecord) :
    ∃ r', (db.upsertRun r).runs.get? r.runId = some r' ∧ r'.status = r.status := by
  refine ⟨_, by rw [get?_upsertRun, if_pos rfl], ?_⟩
  split <;> rfl

theorem Sound.unfinished (h : Sound s) (hun : Unfinished s runId)
    (hmem : s'.memory.runs.get? runId = s.memory.runs.get? runId)
    (hdb : s'.db.runs.get? runId = s.db.runs.get? runId) : Settles runId s s' :=
  h.settles hmem hdb fun hc => absurd hc (h.not_completed hun)

theorem Sound.unfinished_wrote (h : Sound s) (hun : Unfinished s runId)
    {f : Db → Except SqliteStore.Error (Unit × Db)} (hw : Wrote s s' f)
    (hf : ∀ db, f s.db = .ok ((), db) → db.runs = s.db.runs) : Settles runId s s' := by
  refine h.unfinished hun (by rw [hw.memory]) ?_
  rcases hw with rfl | ⟨db, hok, rfl⟩
  · rfl
  · rw [hf db hok]

theorem Sound.marks (h : Sound s) {run : RunRecord} {status : RunStatus}
    (hrun : s.memory.runs.get? runId = some run)
    (hcompleted : run.status = .completed → status = .completed)
    (hcancelled : run.status = .cancelled → status = .cancelled)
    (hver : status = .completed → AllVerified s runId) :
    Settles runId s { s with memory := { s.memory with
      runs := s.memory.runs.set runId { run with status } } } := by
  have hsame {st : RunStatus} (hst : isSettled st = true) (heq : run.status = st) :
      status = st := by
    cases st with
    | completed => exact hcompleted heq
    | cancelled => exact hcancelled heq
    | _ => cases hst
  refine settles_of_memory (r := { run with status }) (by rw [Dict.get?_set, if_pos rfl]) rfl
    ?_ ?_ ?_
  · exact fun st hst hin => hsame hst ((inMemory_some hrun).mp hin)
  · exact fun st hst hdb => hsame hst (h.agree _ _ hst hdb run hrun)
  · exact hver

theorem Sound.stores (h : Sound s) {r : RunRecord} (hr : s.memory.runs.get? runId = some r)
    (hw : Wrote s s' fun db => .ok ((), db.upsertRun r)) : Settles runId s s' := by
  obtain ⟨rfl, -⟩ := h.tidy.runs _ _ hr
  rcases hw with rfl | ⟨db, hdb, rfl⟩
  · exact h.settles rfl rfl (h.completed _)
  · cases hdb
    obtain ⟨r', hr', hst⟩ := upsertRun_status s.db r
    refine settles_of_db hr' rfl ?_ ?_ ?_
    · exact fun status hs hdb => hst.trans (h.agree _ _ hs hdb r hr)
    · intro r₁ hr₁
      cases hr.symm.trans hr₁
      exact hst.symm
    · exact fun heq => h.completed _ (.inl ⟨r, hr, hst.symm.trans heq⟩)

theorem Sound.opens (h : Sound s) {r : RunRecord} (hst : r.status = .submitted)
    (hnone : s.db.runs.get? r.runId = none)
    (hw : Wrote s s' fun db => .ok ((), db.upsertRun r)) : Settles r.runId s s' := by
  have hmem : s.memory.runs.get? r.runId = none := by
    by_contra hne
    exact h.tidy.stored _ hne hnone
  rcases hw with rfl | ⟨db, hdb, rfl⟩
  · exact h.settles rfl rfl (h.completed _)
  · cases hdb
    obtain ⟨r', hr', heq⟩ := upsertRun_status s.db r
    rw [hst] at heq
    refine settles_of_db hr' rfl ?_ ?_ ?_
    · exact fun status _ hdb => absurd hdb (stored_none hnone _)
    · intro r₁ hr₁
      cases hmem.symm.trans hr₁
    · intro hc
      cases heq.symm.trans hc

theorem Sound.starts (h : Sound s) {t : TaskRecord}
    (hmem : s.memory.runs.get? runId = none)
    (hdb : (s.db.runs.get? runId).any (·.status = .submitted) = true)
    (hw : Wrote s s' (Db.upsertTask t)) : Settles runId s s' := by
  obtain ⟨r, hr, hst⟩ := (Option.any_eq_true _ _).mp hdb
  have hnot : ¬ (InMemory s runId .completed ∨ Stored s runId .completed) := by
    rintro (hin | hst')
    · exact inMemory_none hmem _ hin
    · rw [(stored_some hr).mp hst'] at hst
      cases hst
  refine h.settles (by rw [hw.memory]) ?_ fun hc => absurd hc hnot
  rcases hw with rfl | ⟨db, hok, rfl⟩
  · rfl
  · rw [(Lifecycle.upsertTask_frame hok).1]

theorem Sound.remembers (h : Sound s) {r : RunRecord} (t : TaskRecord)
    (hmem : s.memory.runs.get? runId = none) (hst : r.status = .submitted)
    (hdb : (s.db.runs.get? runId).any (·.status = .submitted) = true) :
    Settles runId s { s with memory := { s.memory with
      runs := s.memory.runs.set runId r, tasks := s.memory.tasks.set runId [t] } } := by
  obtain ⟨r', hr', hst'⟩ := (Option.any_eq_true _ _).mp hdb
  refine settles_of_memory (r := r) (by rw [Dict.get?_set, if_pos rfl]) rfl ?_ ?_ ?_
  · exact fun status _ hin => absurd hin (inMemory_none hmem _)
  · exact fun status _ hdb => (hst.trans (of_decide_eq_true hst').symm).trans
      ((stored_some hr').mp hdb)
  · intro hc
    cases hst.symm.trans hc

theorem Sound.forgets (h : Sound s)
    (hmem : (s.memory.runs.get? runId).any (·.status = .submitted) = true) :
    Settles runId s { s with memory := { s.memory with
      runs := s.memory.runs.erase runId, tasks := s.memory.tasks.erase runId
      runCommands := s.memory.runCommands.erase runId } } := by
  obtain ⟨r, hr, hst⟩ := (Option.any_eq_true _ _).mp hmem
  have hsubmitted : r.status = .submitted := of_decide_eq_true hst
  have hnone : (s.memory.runs.erase runId).get? runId = none := by simp [Dict.get?_erase]
  refine ⟨fun status hs hin => ?_, fun _ _ => id, fun _ _ _ r' hr' => ?_, fun hc => ?_⟩
  · rw [← (inMemory_some hr).mp hin, hsubmitted] at hs
    cases hs
  · cases hnone.symm.trans hr'
  · rcases hc with ⟨r', hr', -⟩ | hdb
    · cases hnone.symm.trans hr'
    · cases hsubmitted.symm.trans (h.agree _ _ rfl hdb r hr)

theorem Sound.withdraws (h : Sound s) (hmem : s.memory.runs.get? runId = none)
    (hdb : ∀ r ∈ s.db.runs.get? runId, r.status = .submitted)
    (hw : Wrote s s' (Db.deleteRun runId)) : Settles runId s s' := by
  rcases hw with rfl | ⟨db, hok, rfl⟩
  · exact h.settles rfl rfl (h.completed _)
  · simp only [Db.deleteRun, bind_ok, require_ok] at hok
    obtain ⟨⟨_, db₁⟩, -, _, -, hok⟩ := hok
    cases hok
    have hnone : (db₁.runs.erase runId).get? runId = none := by simp [Dict.get?_erase]
    have hnot (status : RunStatus) :
        ¬ Stored { s with db := { db₁ with runs := db₁.runs.erase runId } } runId status :=
      stored_none hnone status
    refine ⟨fun _ _ => id, fun status hs hst => ?_, fun status _ hst => absurd hst (hnot status),
      fun hc => ?_⟩
    · obtain ⟨r, hr, heq⟩ := hst
      rw [← heq, hdb r hr] at hs
      cases hs
    · rcases hc with hin | hst
      · exact absurd hin (inMemory_none hmem _)
      · exact absurd hst (hnot _)

theorem Deed.settles (h : Sound s) (hd : Deed True rights runId s s' o) : Settles runId s s' := by
  cases hd with
  | looks hl => exact hl.settles h
  | marks run status hrun hkeep hcan hver hs =>
    exact hs ▸ h.marks hrun (hkeep trivial) hcan (hver trivial)
  | stores hr hw => exact h.stores hr hw
  | clears _ hun hw =>
    refine h.unfinished_wrote hun hw fun db hdb => ?_
    rw [deleteTasks_ok hdb]
  | registers _ hun _ _ hw | cancels _ hun _ _ _ hw =>
    exact h.unfinished_wrote hun hw fun db hdb => (Lifecycle.upsertTask_frame hdb).1
  | installs rs hrs _ hs =>
    subst hs
    refine h.settles rfl rfl fun hc t ht => ?_
    rcases hrs with hun | hrs
    · exact absurd hc (h.not_completed hun)
    · rcases List.mem_append.mp ht with ht | ht
      · rw [Memory.taskRecords, Dict.get?_set, if_pos rfl] at ht
        exact h.completed _ hc t (List.mem_append_left _ (hrs t ht))
      · exact h.completed _ hc t (List.mem_append_right _ ht)
  | works l taskId _ hun hl _ he =>
    exact h.unfinished hun (by rw [he.frame.runs]) (by rw [he.frame.dbRuns])
  | opens _ _ hid hst hnone hw =>
    subst hid
    exact h.opens hst hnone hw
  | starts _ _ _ _ _ hmem hdb hw => exact h.starts hmem hdb hw
  | remembers r t _ hmem _ hst _ _ hdb hs => exact hs ▸ h.remembers t hmem hst hdb
  | forgets _ hmem hs => exact hs ▸ h.forgets hmem
  | withdraws _ hmem hdb hw => exact h.withdraws hmem hdb hw

theorem Deed.sound (h : Sound s) (hd : Deed True rights runId s s' o) :
    Sound s' ∧ Absorbs s s' := by
  have htidy := hd.tidy h.tidy
  have helse := hd.elsewhere h.tidy
  have hall (id : String) : Settles id s s' := by
    by_cases hid : id = runId
    · exact hid ▸ hd.settles h
    · exact h.settles (helse.runs id hid) (helse.dbRuns id hid) fun hc =>
        helse.allVerified h.tidy htidy hid (h.completed _ hc)
  exact ⟨⟨htidy, fun id => (hall id).agree, fun id => (hall id).completed⟩,
    ⟨fun id => (hall id).memory, fun id => (hall id).db⟩⟩

end Steps

/-! ## Runs of the server -/

def AllStored (s : State B) : Prop :=
  ∀ p ∈ s.memory.runs, isSettled p.2.status = true →
    (s.db.runs.get? p.1).any (·.status = p.2.status) = true

instance AllStored.decidable (s : State B) : Decidable (AllStored s) :=
  inferInstanceAs (Decidable (∀ _ ∈ _, _))

/-- No completed run is cancelled, every deletion of pending tasks removes the first task of
its run, and the process is not killed while a settled status is still to be stored. -/
def Settling (api : BudgetApi B) (host : Host) : Service.Conditions (server api host) where
  request q m := ∀ runId reason, q = .cancelRun runId reason →
    ∀ run ∈ knownRun m.state runId, run.status ≠ .completed
  act := Careful
  restart m := AllStored m.state

theorem sound_emptyState : Sound (emptyState : State B) := by
  refine ⟨tidy_emptyState, fun _ _ _ hst => ?_, fun _ hc => ?_⟩
  · obtain ⟨r, hr, -⟩ := hst
    cases hr
  · rcases hc with ⟨r, hr, -⟩ | ⟨r, hr, -⟩ <;> cases hr

theorem rehydrate_sound {s : State B} (h : Sound s) (hall : AllStored s) :
    Sound (rehydrate s) ∧ Absorbs s (rehydrate s) := by
  have htidy := h.tidy.rehydrate
  have hruns : (rehydrate s).memory.runs = s.db.runs := rfl
  have hver {id : String} (hst : Stored s id .completed) : AllVerified (rehydrate s) id := by
    have hrows : ∀ p ∈ (rehydrate s).db.tasks, p.2.runId = id → p.2.status = .verified := by
      intro p hp hrun
      obtain ⟨p₀, hp₀, rfl⟩ := List.mem_map.mp hp
      have hrun₀ : p₀.2.runId = id := by
        rw [← hrun, Db.resetStatus]
        split <;> rfl
      have hold := h.completed id (.inr hst) p₀.2
        (List.mem_append_right _ (mem_loadTasksForRun.mpr ⟨hrun₀, p₀, hp₀, rfl⟩))
      simp [Db.resetStatus, TaskStatus.inFlight, hold]
    intro t ht
    rcases List.mem_append.mp ht with ht | ht
    · obtain ⟨hrun, p, hp, rfl⟩ := mem_loadAllTasks ht
      exact hrows p hp hrun
    · obtain ⟨hrun, p, hp, rfl⟩ := mem_loadTasksForRun.mp ht
      exact hrows p hp hrun
  refine ⟨⟨htidy, fun id status hs hst r hr => ?_, fun id hc => ?_⟩, ⟨?_, fun _ _ _ => id⟩⟩
  · obtain ⟨r', hr', rfl⟩ := hst
    rw [hruns] at hr
    exact congrArg _ (Option.some.inj (hr.symm.trans hr'))
  · rcases hc with hc | hc <;> exact hver hc
  · rintro id status hs ⟨r, hr, rfl⟩
    have hstored := hall (id, r) (Dict.mem_of_get? hr) hs
    obtain ⟨r', hr', hst⟩ := (Option.any_eq_true _ _).mp hstored
    exact ⟨r', hr', of_decide_eq_true hst⟩

theorem body_sound {q : Request} {m : Moment B} (hq : (Settling api host).request q m)
    (hm : Sound m.state) : (body api host q).EnsuresOn (Settling api host).act
      (fun m m' => Sound m'.state ∧ Absorbs m.state m'.state) (fun _ _ => True) m := by
  have hbody : (body api host q).EnsuresOn (Settling api host).act
      (CallDoes True host q m.state) (fun _ _ => True) m :=
    body_does (fun _ _ _ _ hc => hc) hm.tidy q fun _ => hq
  apply (hbody.under (K := fun m => Sound m.state) hm fun m₁ m₂ hm₁ hd => ?_).mono
    (fun _ _ => id) fun _ _ _ => trivial
  obtain ⟨_, -, e, -, hd⟩ := hd
  exact ⟨hd.sound hm₁, (hd.sound hm₁).1⟩

theorem settling_upheld {c c' : (server api host).Config} {ls : List (server api host).Label}
    (hrun : Path Service.step (Settling api host).Met c ls c')
    (h : Service.Upheld (Settling api host)
      (fun _ m m' => Sound m'.state ∧ Absorbs m.state m'.state) (fun m => Sound m.state) c) :
    Service.Upheld (Settling api host)
      (fun _ m m' => Sound m'.state ∧ Absorbs m.state m'.state) (fun m => Sound m.state) c' :=
  Service.upheld (fun _ _ hq hm => body_sound hq hm) (fun _ _ _ _ hT => hT.1)
    (fun _ hall hm => (rehydrate_sound hm hall).1) h hrun

/-- In a run of the server whose steps meet the conditions, a run that is completed or
cancelled stays so, and one that is completed has only verified tasks. -/
theorem settled_absorbing {ls₁ ls₂ : List (server api host).Label}
    {c₁ c₂ : (server api host).Config}
    (h₁ : Path Service.step (Settling api host).Met ((server api host).initial emptyState) ls₁ c₁)
    (h₂ : Path Service.step (Settling api host).Met c₁ ls₂ c₂) :
    Absorbs c₁.moment.state c₂.moment.state ∧ CompletedVerified c₂.moment.state := by
  have hup₁ := settling_upheld h₁ ⟨sound_emptyState, fun _ _ hc => (by cases hc)⟩
  refine ⟨?_, (settling_upheld h₂ hup₁).always.completed⟩
  induction h₂ with
  | refl => exact .refl
  | @tail c c' ls l hpath hl hs ih =>
    have hup := settling_upheld hpath hup₁
    refine ih.trans ?_
    cases l with
    | request q =>
      simp only [Service.step] at hs
      split at hs
      next => cases hs; exact .refl
      next => cases hs
    | act w =>
      obtain ⟨q, -, -, habs⟩ := hup.transition hl hs
      exact habs
    | restart =>
      cases hs
      exact (rehydrate_sound hup.always hl).2

section Sample

def cancelledRun : List sampleServer.Label :=
  sampleServer.serve (.cancelRun "run_a" "") (List.replicate 4 (sampleWorld "c"))

/-- A completed run is cancelled. -/
theorem completed_cancelled : ∃ c c' : sampleServer.Config,
    Library.Run Service.step (sampleServer.initial emptyState) completedRun c ∧
    Library.Run Service.step c cancelledRun c' ∧ ¬ Absorbs c.moment.state c'.moment.state := by
  have hrun : (Library.exec Service.step (sampleServer.initial emptyState) completedRun).any
      (fun c => (c.moment.state.db.runs.get? "run_a").any (·.status = .completed) &&
        (Library.exec Service.step c cancelledRun).any fun c' =>
          (c'.moment.state.db.runs.get? "run_a").any (·.status = .cancelled)) = true := by
    decide +kernel
  obtain ⟨c, hc, h⟩ := (Option.any_eq_true _ _).mp hrun
  obtain ⟨hcompleted, h⟩ := Bool.and_eq_true_iff.mp h
  obtain ⟨c', hc', hcancelled⟩ := (Option.any_eq_true _ _).mp h
  refine ⟨c, c', path_of_exec hc, path_of_exec hc', fun habs => ?_⟩
  obtain ⟨r, hr, hst⟩ := (Option.any_eq_true _ _).mp hcompleted
  obtain ⟨r', hr', hst'⟩ := (Option.any_eq_true _ _).mp hcancelled
  obtain ⟨r₁, hr₁, heq⟩ := habs.db "run_a" .completed rfl ⟨r, hr, of_decide_eq_true hst⟩
  cases hr'.symm.trans hr₁
  rw [of_decide_eq_true hst'] at heq
  cases heq

instance Careful.decidable (o : Op B) (w : World B) (m : Moment B) : Decidable (Careful o w m) := by
  unfold Careful
  split <;> infer_instance

instance decidable_request (q : Request) (m : Moment B) :
    Decidable ((Settling api host).request q m) :=
  match q with
  | .cancelRun runId reason =>
    decidable_of_iff (∀ run ∈ knownRun m.state runId, run.status ≠ .completed)
      ⟨fun h _ _ hq => by cases hq; exact h, fun h => h runId reason rfl⟩
  | .submitGoal _ | .executeRun _ _ | .executeTask _ _ _ | .getRun _ | .listTasks _
  | .getTaskEvidence _ _ => isTrue fun _ _ hq => by cases hq

instance (c : (server api host).Config) (l : (server api host).Label) :
    Decidable ((Settling api host).Met c l) :=
  match l with
  | .request q => decidable_request q c.moment
  | .act w => by
    rw [Service.Conditions.Met]
    split
    next o k _ => exact Careful.decidable o w c.moment
    next => exact isTrue trivial
  | .restart => AllStored.decidable c.moment.state

/-- A completed run that is executed once more, in a new process. -/
theorem completed_kept : ∃ c c' : sampleServer.Config,
    (c.moment.state.db.runs.get? "run_a").any (·.status = .completed) = true ∧
    c'.outcome.isSome = true ∧ Absorbs c.moment.state c'.moment.state ∧
    CompletedVerified c'.moment.state := by
  have hrun : (Library.exec (restrict Service.step (Settling BudgetLedger.api sampleHost).Met)
      (sampleServer.initial emptyState) completedRun).any (fun c =>
        (c.moment.state.db.runs.get? "run_a").any (·.status = .completed) &&
        (Library.exec (restrict Service.step (Settling BudgetLedger.api sampleHost).Met) c
          (.restart :: sampleServer.serve (.executeRun "run_a" []) (List.replicate 2
            (sampleWorld "c")))).any (·.outcome.isSome)) = true := by
    decide +kernel
  obtain ⟨c, hc, h⟩ := run_of_any hrun
  obtain ⟨hcompleted, h⟩ := Bool.and_eq_true_iff.mp h
  obtain ⟨c', hc', hout⟩ := run_of_any h
  exact ⟨c, c', hcompleted, hout,
    settled_absorbing (path_of_restrict hc) (path_of_restrict hc')⟩

end Sample

end SubagentBridge.Server
