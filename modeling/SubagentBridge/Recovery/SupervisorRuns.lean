import SubagentBridge.Library.JsonLaws
import SubagentBridge.Recovery.Rows

/-! Runs of the supervisors: the discipline at every step, and the induction over runs. -/

namespace SubagentBridge.Supervisor

open Library Domain TeamStore

variable {F : Type} [LinearOrder F] [FloatText F] [FloatInt F] {B : Builtins F}

variable (B) in
abbrev Calls := (supervisors B).Config

variable (B) in
abbrev Step := Machine.step (M := supervisors B)

variable (B) in
abbrev start (db : Db F) : Calls B := (supervisors B).initial db

variable {G : Calls B → (supervisors B).Label → Prop} {s₀ : Db F} {c c' : Calls B}
variable {ls : List (supervisors B).Label} {i : Nat} {w : World F} {q : Request F} {o : Op F}
variable {k : Except Error o.Ret → Call F (Response F)} {h : History F}

abbrev records (c : Calls B) : List (Request F × History F) :=
  c.modes (protocol F) fun q => (q, [])

abbrev Ends (q : Request F) (m : (protocol F).Mode) (r : Except Error (Response F)) : Prop :=
  Outcome q m.2 r

omit [LinearOrder F] [FloatText F] [FloatInt F] in
theorem after_start (q : Request F) (h : History F) :
    (protocol F).after (q, []) h = (q, h) :=
  Protocol.after_ofHistory _ _ q [] h

theorem records_call {call : (supervisors B).Activity} (hc : c.calls[i]? = some call) :
    (records c)[i]? = some (call.request, call.hist) := by
  simp [Machine.Config.modes, hc, Machine.Activity.mode, after_start]

theorem keyed_run (hk : Keyed s₀) (hrun : Path (Step B) G (start B s₀) ls c) : Keyed c.state := by
  refine hrun.invariant (I := fun c => Keyed c.state) hk ?_
  rintro c (q | ⟨i, w⟩) c' hk - hs
  · rw [Machine.step_start hs]
    exact hk
  · obtain ⟨q, o, k, h, hact⟩ := Machine.step_act hs
    rw [hact.result]
    exact keyed_exec hk

theorem answered (hk : Keyed s₀) : Machine.Answered (M := supervisors B) (protocol F) G s₀ :=
  fun _ _ _ _ hrun _ => expected_exec (keyed_run hk hrun)

theorem next_allowed (hk : Keyed s₀) (hrun : Path (Step B) G (start B s₀) ls c)
    (hc : c.calls[i]? = some ⟨q, .call o k, h⟩) : Allowed q h o := by
  have hf := Machine.disciplined (P := protocol F) (Q := Ends)
    body_follows (answered hk) hrun _ (List.mem_of_getElem? hc)
  have ha := hf.1
  rwa [Machine.Activity.mode, after_start] at ha

theorem acts_allowed (hk : Keyed s₀) (hrun : Path (Step B) G (start B s₀) ls c)
    (hact : Machine.Acts c i w c' q o k h) : Allowed q h o :=
  next_allowed hk hrun hact.call

theorem hist_allowed (hk : Keyed s₀) (hrun : Path (Step B) G (start B s₀) ls c)
    {call : (supervisors B).Activity} (hc : c.calls[i]? = some call)
    {e : Event (sig F) Error} {h' : History F} (hh : call.hist = h ++ e :: h') :
    Allowed call.request h e.op := by
  obtain ⟨ls₁, w, c₁, c₂, hper⟩ := Machine.performs_of_hist hrun.run hc hh
  obtain ⟨k, hact⟩ := hper.acts
  exact acts_allowed hk hper.before hact

theorem outcome_call (hk : Keyed s₀) (hrun : Path (Step B) G (start B s₀) ls c)
    {call : (supervisors B).Activity} (hc : c.calls[i]? = some call)
    {r : Except Error (Response F)} (hr : call.proc.result = some r) :
    Outcome call.request call.hist r := by
  have hout := Machine.finished (P := protocol F) (Q := Ends) body_follows
    (answered hk) hrun (List.mem_of_getElem? hc) hr
  rwa [Machine.Activity.mode, after_start] at hout

/-- The induction over runs: what holds at the start and survives new calls and every
operation that a call may perform. -/
theorem run_invariant {J : Db F → List (Request F × History F) → Prop} (hk : Keyed s₀)
    (h₀ : J s₀ []) (hstart : ∀ db ms q, J db ms → J db (ms ++ [(q, [])]))
    (hact : ∀ (c : Calls B) i w c' q o k h, Keyed c.state → G c (.act i w) →
      Machine.Acts c i w c' q o k h → J c.state (records c) → Allowed q h o →
      J (exec B.repr o w c.state).2
        ((records c).set i (q, h ++ [⟨o, (exec B.repr o w c.state).1⟩])))
    (hrun : Path (Step B) G (start B s₀) ls c) : J c.state (records c) := by
  have hboth := Machine.modes_invariant (M := supervisors B) (P := protocol F) (Q := Ends)
    (J := fun db ms => Keyed db ∧ J db ms) body_follows (answered hk) ⟨hk, h₀⟩
    (fun db ms q hJ => ⟨hJ.1, hstart db ms q hJ.2⟩) ?_ hrun
  · exact hboth.2
  · intro c i w c' q o k h hG hacts hJ ha
    simp only [after_start] at ha ⊢
    exact ⟨keyed_exec hJ.1, hact c i w c' q o k h hJ.1 hG hacts hJ.2 ha⟩

theorem row_step {l : (supervisors B).Label} (hs : Step B c l = some c') (d : String) :
    c'.state.queue.get? d = c.state.queue.get? d ∨ ∃ i w q o k h row,
      l = .act i w ∧ Machine.Acts c i w c' q o k h ∧ c'.state.queue.get? d = some row ∧
      RowChange w c.state d o (exec B.repr o w c.state).1 row := by
  cases l with
  | start q => exact .inl (by rw [Machine.step_start hs])
  | act i w =>
    obtain ⟨q, o, k, h, hact⟩ := Machine.step_act hs
    rcases row_exec B.repr o w c.state d with hrow | ⟨row, hrow, hc⟩
    · exact .inl (by rw [hact.result]; exact hrow)
    · exact .inr ⟨i, w, q, o, k, h, row, rfl, hact, by rw [hact.result]; exact hrow, hc⟩

def Done (p : Event (sig F) Error → Prop) (ms : List (Request F × History F)) : Prop :=
  ∃ m ∈ ms, ∃ e ∈ m.2, p e

section Done

variable {p : Event (sig F) Error → Prop} {ms : List (Request F × History F)}

omit [LinearOrder F] [FloatText F] [FloatInt F]

theorem not_done_nil : ¬ Done p [] := fun ⟨_, hm, _⟩ => by cases hm

theorem done_start (q : Request F) : Done p (ms ++ [(q, [])]) ↔ Done p ms := by
  constructor
  · rintro ⟨m, hm, e, he, hp⟩
    rcases List.mem_append.mp hm with hm | hm
    · exact ⟨m, hm, e, he, hp⟩
    · obtain rfl := List.mem_singleton.mp hm
      cases he
  · rintro ⟨m, hm, hp⟩
    exact ⟨m, List.mem_append_left _ hm, hp⟩

theorem done_set (hi : ms[i]? = some (q, h)) (e : Event (sig F) Error) :
    Done p (ms.set i (q, h ++ [e])) ↔ Done p ms ∨ p e := by
  have hlt := (List.getElem?_eq_some_iff.mp hi).1
  constructor
  · rintro ⟨m, hm, e', he, hp⟩
    rcases List.mem_or_eq_of_mem_set hm with hm | rfl
    · exact .inl ⟨m, hm, e', he, hp⟩
    rcases List.mem_append.mp he with he | he
    · exact .inl ⟨_, List.mem_of_getElem? hi, e', he, hp⟩
    · exact .inr (List.mem_singleton.mp he ▸ hp)
  · rintro (⟨m, hm, e', he, hp⟩ | hp)
    · obtain ⟨j, hj⟩ := List.getElem?_of_mem hm
      by_cases hij : i = j
      · subst hij
        obtain rfl := Option.some.inj (hi.symm.trans hj)
        exact ⟨(q, h ++ [e]), List.mem_set hlt _, e', List.mem_append_left _ he, hp⟩
      · exact ⟨m, List.mem_of_getElem? ((List.getElem?_set_ne hij).trans hj), e', he, hp⟩
    · exact ⟨(q, h ++ [e]), List.mem_set hlt _, e, by simp, hp⟩

end Done

theorem done_records {p : Event (sig F) Error → Prop} {call : (supervisors B).Activity}
    (hc : c.calls[i]? = some call) {e : Event (sig F) Error} (he : e ∈ call.hist) (hp : p e) :
    Done p (records c) :=
  ⟨_, List.mem_of_getElem? (records_call hc), e, he, hp⟩

def guarding (cond : Calls B → Request F → History F → Op F → Bool) (c : Calls B) :
    (supervisors B).Label → Bool
  | .start _ => true
  | .act i _ => match c.calls[i]? with
    | some ⟨q, .call o _, h⟩ => cond c q h o
    | _ => true

theorem guarding_act {cond : Calls B → Request F → History F → Op F → Bool}
    (hact : Machine.Acts c i w c' q o k h) (hG : guarding cond c (.act i w) = true) :
    cond c q h o = true := by
  rwa [guarding, hact.call] at hG

/-! ## A team with one worker and one item -/

section Sample

def sampleBuiltins : Builtins Int where
  repr s := s
  str _ := ""
  int
    | .int n => .ok n
    | _ => .error (.type, "")

def sampleConfig (workerId : String) : WorkerConfig Int := leadConfig workerId "t"

def sampleItem (dispatchId : String) (status : QueueTaskStatus) (dedupKey : Option String) :
    QueueItem Int where
  dispatchId
  teamId := "t"
  fromSessionId := "lead"
  toSessionId := "worker"
  taskId := "task"
  payload := []
  status
  dedupKey
  priority := 0
  steeringInstructions := []
  createdAt := 0
  updatedAt := 0

def sampleDb (items : List (QueueItem Int)) : Db Int where
  teams := [("t", ⟨"t", "lead", "T", 0⟩)]
  sessions := [("lead", ⟨"lead", .lead, "t", .idle, sampleConfig "lead", 0, 0⟩),
    ("worker", ⟨"worker", .worker, "t", .idle, sampleConfig "worker", 0, 0⟩)]
  queue := items.map fun item => (item.dispatchId, toRow item)
  worktrees := []
  handoffs := []
  checkpoints := []

def sampleEvidence (dispatchId status : String) : HandoffEvidence Int where
  dispatchId
  fromWorkerId := "worker"
  toLeadId := "lead"
  status
  summary := ""
  artifacts := []
  metrics := []
  submittedAt := 0

/-- A world where nothing exists on disk, no process lives and a dispatched step completes. -/
def sampleAnswer (time : Int) : (o : Op Int) → Except Error o.Ret
  | .now => .ok time
  | .uuidHex => .ok "0123456789abcdef"
  | .pathExists _ | .isProcessAlive _ _ | .isWorkerAlive _ => .ok false
  | .isWorkerDispatchable _ => .ok true
  | .dispatchTaskToWorker _ _ _ => .ok [("status", .str "COMPLETED")]
  | _ => .error .os

def sampleWorld (time : Int) : World Int :=
  ⟨time, time, false, sampleAnswer time, (sampleDb []).sessions⟩

abbrev SampleLabel := (supervisors sampleBuiltins).Label

def ask (q : Request Int) : SampleLabel := .start q

def acts (i n : Nat) (time : Int) : List SampleLabel := List.replicate n (.act i (sampleWorld time))

theorem keyed_sampleDb (items : List (QueueItem Int)) (h : (items.map (·.dispatchId)).Nodup) :
    Keyed (sampleDb items) where
  nodup := by
    have hk : (sampleDb items).queue.keys = items.map (·.dispatchId) := by
      simp [sampleDb, Dict.keys]
    exact hk ▸ h
  ids p hp := by
    obtain ⟨item, -, rfl⟩ := List.mem_map.mp hp
    rfl

end Sample

end SubagentBridge.Supervisor
