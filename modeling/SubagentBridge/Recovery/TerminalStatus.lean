import SubagentBridge.Recovery.ItemIdentity

/-! Terminal absorption: a completed or cancelled item stays so. -/

namespace SubagentBridge.Supervisor

open Library Domain TeamStore

variable {F : Type}

def final (status : QueueTaskStatus) : Bool := status = .completed ∨ status = .cancelled

theorem not_final_of_active {status : QueueTaskStatus} (h : status.active = true) :
    final status = false := by
  cases status <;> first | rfl | cases h

theorem not_final_of_claimable {status : QueueTaskStatus}
    (h : status ∉ [.running, .completed, .cancelled]) : final status = false := by
  cases status <;> first | rfl | simp at h

theorem not_final_of_mayBecome {q : Request F} {x y : QueueTaskStatus} (h : mayBecome q x y) :
    final x = false := by
  cases q with
  | interruptWorker => exact not_final_of_active h.1
  | reconcileTeam => exact not_final_of_active h.1
  | reconcileAmbiguous =>
    have hx := h.1
    simp only [List.mem_cons, List.not_mem_nil, or_false] at hx
    rcases hx with rfl | rfl | rfl <;> rfl
  | resumeTask => rw [h.1]; rfl
  | _ => cases h

/-- The status that a call last read of the item whose row it writes without a look at it. -/
def lastRead (h : History F) : Op F → Option QueueTaskStatus
  | .saveQueueItem item => (snapshot h item.dispatchId).map (·.status)
  | .finalizeHandoff _ evidence _ _ => selected h evidence.dispatchId
  | _ => none

theorem not_final_of_lastRead {q : Request F} {h : History F} {o : Op F} {st : QueueTaskStatus}
    (ha : Allowed q h o) (hr : lastRead h o = some st) : final st = false := by
  cases o with
  | saveQueueItem item =>
    obtain ⟨s, hs, -, hmay, -⟩ := ha
    rw [lastRead, hs] at hr
    exact Option.some.inj hr ▸ not_final_of_mayBecome hmay
  | finalizeHandoff =>
    obtain ⟨_, _, seen, -, -, -, -, hsel, hc⟩ := ha
    obtain rfl := Option.some.inj (hsel.symm.trans hr)
    simp [final, hc]
  | _ => cases hr

/-- The item that is about to be written has no final status that the call did not read. -/
def unchanged (db : Db F) (h : History F) (o : Op F) (d : String) : Bool :=
  ∀ st ∈ statusOf db d, final st → lastRead h o = some st

/-- A write of a whole row or a handoff finds no final status that the call has not read, and a
cancellation of an active item finds no handoff accepted. -/
def upToDate (db : Db F) (h : History F) (o : Op F) : Bool :=
  match o with
  | .saveQueueItem item => unchanged db h o item.dispatchId
  | .finalizeHandoff _ evidence _ _ => unchanged db h o evidence.dispatchId
  | .cancelActiveQueueItem d _ _ =>
    ∀ st ∈ statusOf db d, st.active → (db.handoffs.get? d).isNone
  | _ => true

variable {w : World F} {db : Db F} {d : String} {o : Op F} {q : Request F} {h : History F}
variable {st : QueueTaskStatus} {repr : String → String} {ms : List (Request F × History F)}

theorem not_final_of_unchanged (ha : Allowed q h o) (hu : unchanged db h o d = true)
    (hst : statusOf db d = some st) : final st = false := by
  by_contra hf
  have hf : final st = true := Bool.eq_true_of_not_eq_false hf
  have hr := of_decide_eq_true hu st hst hf
  exact absurd (not_final_of_lastRead ha hr) (by simp [hf])

def cancelled (d : String) (e : Event (sig F) Error) : Prop :=
  ∃ lead reason item, e = ⟨.cancelActiveQueueItem d lead reason, .ok item⟩

def accepted (d : String) (e : Event (sig F) Error) : Prop :=
  ∃ teamId evidence status workerId, evidence.dispatchId = d ∧
    e = ⟨.finalizeHandoff teamId evidence status workerId, .ok ()⟩

/-- What the calls report of an item fits its rows, and no two of them contradict. -/
structure Settled (d : String) (db : Db F) (ms : List (Request F × History F)) : Prop where
  cancelled : Done (cancelled d) ms → statusOf db d = some .cancelled
  accepted : Done (accepted d) ms → (db.handoffs.get? d).isSome = true
  apart : Done (Supervisor.cancelled d) ms → ¬ Done (Supervisor.accepted d) ms

theorem settled_nil : Settled d db [] where
  cancelled h := absurd h not_done_nil
  accepted h := absurd h not_done_nil
  apart h := absurd h not_done_nil

theorem Settled.start (hs : Settled d db ms) (q : Request F) : Settled d db (ms ++ [(q, [])]) where
  cancelled h := hs.cancelled ((done_start q).mp h)
  accepted h := hs.accepted ((done_start q).mp h)
  apart h h' := hs.apart ((done_start q).mp h) ((done_start q).mp h')

variable [LinearOrder F] [FloatText F]

theorem final_exec (ha : Allowed q h o) (hu : upToDate db h o = true) (hf : final st = true)
    (hst : statusOf db d = some st) : statusOf (exec repr o w db).2 d = some st := by
  obtain ⟨row, hrow, rfl⟩ := Option.map_eq_some_iff.mp hst
  rcases row_exec repr o w db d with hsame | ⟨row', hrow', hc⟩
  · rw [statusOf, hsame, hrow, Option.map_some]
  have hlost : ∀ {st}, final st = false → st = row.status → False := fun h he => by
    simp [he ▸ h] at hf
  rw [statusOf_of_get? hrow']
  generalize (exec repr o w db).1 = r at hc
  cases hc with
  | inserted item hd hnew => cases hnew.symm.trans hrow
  | created item hd hnew => cases hnew.symm.trans hrow
  | steered hrow₁ => rw [Option.some.inj (Eq.trans (Eq.symm hrow₁) hrow)]
  | cancelled hrow₁ _ hact =>
    obtain rfl := Option.some.inj (hrow₁.symm.trans hrow)
    exact (hlost (not_final_of_active hact) rfl).elim
  | marked r hrow₁ hnot =>
    obtain rfl := Option.some.inj (hrow₁.symm.trans hrow)
    exact (hlost (not_final_of_claimable hnot) rfl).elim
  | saved item hd =>
    subst hd
    exact (hlost (not_final_of_unchanged ha hu hst) rfl).elim
  | finalized hd =>
    subst hd
    exact (hlost (not_final_of_unchanged ha hu hst) rfl).elim

theorem cancel_exec {lead reason : String} {item : QueueItem F}
    (h : (exec repr (.cancelActiveQueueItem d lead reason) w db).1 = .ok item) :
    ∃ st, statusOf db d = some st ∧ st.active = true ∧
      statusOf (exec repr (.cancelActiveQueueItem d lead reason) w db).2 d = some .cancelled := by
  rcases exec_atomically repr w db
    (o := .cancelActiveQueueItem d lead reason) rfl with ⟨e, he⟩ | ⟨item', db', hf, he⟩
  · rw [he] at h
    cases h
  · obtain ⟨row, read, hrow, -, hact, -, rfl⟩ := cancel_ok hf
    rw [he]
    exact ⟨row.status, statusOf_of_get? hrow, hact, statusOf_setRow db d _⟩

theorem handoff_exec (h : (db.handoffs.get? d).isSome = true) :
    ((exec repr o w db).2.handoffs.get? d).isSome = true := by
  rcases handoffs_exec repr o w db with hsame | ⟨teamId, evidence, _, _, -, -, hset⟩
  · rwa [hsame]
  · rw [hset, Dict.get?_set]
    split
    · rfl
    · exact h

theorem accepted_exec (h : accepted d ⟨o, (exec repr o w db).1⟩) :
    ((exec repr o w db).2.handoffs.get? d).isSome = true := by
  obtain ⟨teamId, evidence, status, workerId, rfl, he⟩ := h
  obtain ⟨rfl, hans⟩ := Event.mk.inj he
  rcases finalize_exec repr teamId evidence status workerId w db with
    ⟨e, h⟩ | ⟨hnew, db', hf, h⟩
  · rw [h] at hans
    cases hans
  · unfold Db.finalizeHandoff at hf
    rw [hnew] at hf
    obtain rfl := (Prod.mk.inj (Except.ok.inj hf)).2
    rw [h]
    exact congrArg Option.isSome ((Dict.get?_set ..).trans (if_pos rfl))

theorem Settled.act {i : Nat} (hs : Settled d db ms) (hi : ms[i]? = some (q, h))
    (ha : Allowed q h o) (hu : upToDate db h o = true) :
    Settled d (exec repr o w db).2 (ms.set i (q, h ++ [⟨o, (exec repr o w db).1⟩])) where
  cancelled hc := by
    rcases (done_set hi _).mp hc with hc | ⟨lead, reason, item, he⟩
    · exact final_exec ha hu rfl (hs.cancelled hc)
    · obtain ⟨rfl, hans⟩ := Event.mk.inj he
      obtain ⟨st, -, -, hst⟩ := cancel_exec (eq_of_heq hans)
      exact hst
  accepted hacc := by
    rcases (done_set hi _).mp hacc with hacc | hacc
    · exact handoff_exec (hs.accepted hacc)
    · exact accepted_exec hacc
  apart hc hacc := by
    rcases (done_set hi _).mp hc with hold | ⟨lead, reason, item, he⟩
    · rcases (done_set hi _).mp hacc with hacc | ⟨teamId, evidence, status, workerId, rfl, he⟩
      · exact hs.apart hold hacc
      · obtain ⟨rfl, -⟩ := Event.mk.inj he
        cases not_final_of_unchanged ha hu (hs.cancelled hold)
    · obtain ⟨rfl, hans⟩ := Event.mk.inj he
      rcases (done_set hi _).mp hacc with hacc | ⟨_, _, _, _, -, he'⟩
      · obtain ⟨st, hst, hact, -⟩ := cancel_exec (eq_of_heq hans)
        have hnone := of_decide_eq_true hu st hst hact
        rw [Option.isNone_iff_eq_none] at hnone
        simpa [hnone] using hs.accepted hacc
      · cases he'

section Runs

variable [FloatInt F] {B : Builtins F} {s₀ : Db F} {c c₁ c₂ : Calls B}
variable {ls ls₁ ls₂ : List (supervisors B).Label}

abbrev allUpToDate (c : Calls B) : (supervisors B).Label → Bool :=
  guarding (fun c _ h o => upToDate c.state h o) c

theorem settled_run (hk : Keyed s₀)
    (hrun : Path (Step B) (fun c l => allUpToDate c l = true) (start B s₀) ls c) :
    Settled d c.state (records c) := by
  refine run_invariant hk settled_nil (fun db ms q hs => hs.start q) ?_ hrun
  intro c i w c' q o k h _ hG hact hs ha
  exact hs.act (records_call hact.call) ha (guarding_act hact hG)

theorem final_run (hk : Keyed s₀)
    (h₁ : Path (Step B) (fun c l => allUpToDate c l = true) (start B s₀) ls₁ c₁)
    (h₂ : Path (Step B) (fun c l => allUpToDate c l = true) c₁ ls₂ c₂)
    (hf : final st = true) (hst : statusOf c₁.state d = some st) :
    statusOf c₂.state d = some st := by
  induction h₂ with
  | refl => exact hst
  | @tail c c' ls l h₂ hG hs ih =>
    cases l with
    | start q => rw [Machine.step_start hs]; exact ih
    | act i w =>
      obtain ⟨q, o, k, h, hact⟩ := Machine.step_act hs
      rw [hact.result]
      exact final_exec (acts_allowed hk (h₁.trans h₂) hact) (guarding_act hact hG) hf ih

def reportsCancelled (d : String) (call : (supervisors B).Activity) : Bool :=
  match call.request, call.proc.result with
  | .cancelTask _ d' _, some (.ok _) => d' = d
  | _, _ => false

def reportsAccepted (d : String) (call : (supervisors B).Activity) : Bool :=
  match call.request, call.proc.result with
  | .submitWorkerHandoff evidence _, some (.ok _) => evidence.dispatchId = d
  | _, _ => false

variable {G : Calls B → (supervisors B).Label → Prop}

theorem done_of_reportsCancelled (hk : Keyed s₀) (hrun : Path (Step B) G (start B s₀) ls c)
    {call : (supervisors B).Activity} (hc : call ∈ c.calls) (hr : reportsCancelled d call = true) :
    Done (cancelled d) (records c) := by
  obtain ⟨i, hc⟩ := List.getElem?_of_mem hc
  unfold reportsCancelled at hr
  split at hr
  next lead d' reason r hq hres =>
    obtain rfl := of_decide_eq_true hr
    have hout := outcome_call hk hrun hc hres
    rw [hq] at hout
    obtain ⟨item, he⟩ := hout
    exact done_records hc he ⟨lead, reason, item, rfl⟩
  next => cases hr

theorem done_of_reportsAccepted (hk : Keyed s₀) (hrun : Path (Step B) G (start B s₀) ls c)
    {call : (supervisors B).Activity} (hc : call ∈ c.calls) (hr : reportsAccepted d call = true) :
    Done (accepted d) (records c) := by
  obtain ⟨i, hc⟩ := List.getElem?_of_mem hc
  unfold reportsAccepted at hr
  split at hr
  next evidence verify r hq hres =>
    obtain rfl := of_decide_eq_true hr
    have hout := outcome_call hk hrun hc hres
    rw [hq] at hout
    obtain ⟨teamId, evidence', workerId, hd, he⟩ := hout
    exact done_records hc he ⟨teamId, evidence', _, workerId, hd, rfl⟩
  next => cases hr

/-- As long as no call writes over a final status that it has not read, final statuses stay,
and a cancellation and a handoff of one item do not both succeed. -/
theorem terminal_absorption (hk : Keyed s₀)
    (h₁ : Path (Step B) (fun c l => allUpToDate c l = true) (start B s₀) ls₁ c₁)
    (h₂ : Path (Step B) (fun c l => allUpToDate c l = true) c₁ ls₂ c₂) (d : String) :
    (∀ st, final st = true → statusOf c₁.state d = some st → statusOf c₂.state d = some st) ∧
      ∀ call ∈ c₁.calls, ∀ call' ∈ c₁.calls, reportsCancelled d call = true →
        reportsAccepted d call' = false := by
  refine ⟨fun st hf hst => final_run hk h₁ h₂ hf hst, fun call hc call' hc' hr => ?_⟩
  have hcancelled := done_of_reportsCancelled hk h₁ hc hr
  cases hr' : reportsAccepted d call' with
  | false => rfl
  | true =>
    exact absurd (done_of_reportsAccepted hk h₁ hc' hr') ((settled_run hk h₁).apart hcancelled)

def handoffRace : List SampleLabel :=
  ask (.submitWorkerHandoff (sampleEvidence "d" "FAILED") true) :: ask
    (.cancelTask "lead" "d" "") ::
    (acts 0 6 1 ++ acts 1 3 2)

theorem handoff_over_cancellation : ∃ c₁ c₂ : Calls sampleBuiltins,
    Run (Step sampleBuiltins)
      (start sampleBuiltins (sampleDb [sampleItem "d" .dispatched none])) handoffRace c₁ ∧
    Run (Step sampleBuiltins) c₁ (acts 0 1 3) c₂ ∧
    statusOf c₁.state "d" = some .cancelled ∧ statusOf c₂.state "d" = some .completed ∧
    (∃ call ∈ c₂.calls, reportsCancelled "d" call = true) ∧
    ∃ call ∈ c₂.calls, reportsAccepted "d" call = true := by
  have h : (Library.exec (Step sampleBuiltins)
      (start sampleBuiltins (sampleDb [sampleItem "d" .dispatched none])) handoffRace).any
      (fun c => statusOf c.state "d" = some .cancelled &&
        (Library.exec (Step sampleBuiltins) c (acts 0 1 3)).any fun c =>
          statusOf c.state "d" = some .completed &&
            (c.calls.any (reportsCancelled "d") && c.calls.any (reportsAccepted "d"))) = true := by
    decide +kernel
  obtain ⟨c₁, h₁, hc⟩ := run_of_any h
  obtain ⟨hst₁, h₂⟩ := Bool.and_eq_true_iff.mp hc
  obtain ⟨c₂, h₂, hc⟩ := run_of_any h₂
  obtain ⟨hst₂, hc⟩ := Bool.and_eq_true_iff.mp hc
  obtain ⟨hcancelled, haccepted⟩ := Bool.and_eq_true_iff.mp hc
  exact ⟨c₁, c₂, h₁, h₂, of_decide_eq_true hst₁, of_decide_eq_true hst₂,
    List.any_eq_true.mp hcancelled, List.any_eq_true.mp haccepted⟩

/-- A cancellation, then an interruption that reads the item afterwards. -/
theorem terminal_absorption_cancelled : ∃ c₁ c₂ : Calls sampleBuiltins,
    statusOf c₁.state "d" = some .cancelled ∧
    (∃ call ∈ c₂.calls, call.proc.result.isSome = true ∧ reportsCancelled "d" call = false) ∧
    statusOf c₂.state "d" = some .cancelled := by
  have h : (Library.exec (restrict (Step sampleBuiltins) fun c l => allUpToDate c l = true)
      (start sampleBuiltins (sampleDb [sampleItem "d" .dispatched none]))
      (ask (.cancelTask "lead" "d" "") :: acts 0 3 1)).any
      (fun c => statusOf c.state "d" = some .cancelled &&
        (Library.exec (restrict (Step sampleBuiltins) fun c l => allUpToDate c l = true) c
          (ask (.interruptWorker "worker" "") :: acts 1 4 2)).any fun c =>
            c.calls.any fun call => call.proc.result.isSome &&
              !reportsCancelled "d" call) = true := by
    decide +kernel
  obtain ⟨c₁, h₁, hc⟩ := run_of_any h
  obtain ⟨hst, h₂⟩ := Bool.and_eq_true_iff.mp hc
  obtain ⟨c₂, h₂, hc⟩ := run_of_any h₂
  obtain ⟨call, hcall, hc⟩ := List.any_eq_true.mp hc
  obtain ⟨hres, hother⟩ := Bool.and_eq_true_iff.mp hc
  have hk := keyed_sampleDb [sampleItem "d" .dispatched none] (by decide)
  have hst := of_decide_eq_true hst
  exact ⟨c₁, c₂, hst, ⟨call, hcall, hres, by simpa using hother⟩,
    (terminal_absorption hk (path_of_restrict h₁) (path_of_restrict h₂) "d").1 _ rfl hst⟩

end Runs

end SubagentBridge.Supervisor
