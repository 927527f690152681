import SubagentBridge.Execution.OutstandingTasks

/-! Runs of the controller: at most one task is outstanding at each process, and a result is that
of the task that was written. -/

namespace SubagentBridge.WorkerProcess

open Library Domain

section Lock

variable {F : Type} {A : Authority F}

theorem inLock_next {m : Mode} {o : Op F} (hlock : o ≠ .lock) (hunlock : o ≠ .unlock)
    (r : Except Error o.Ret) : (m.next o r).inLock = m.inLock := by
  unfold Mode.next
  split <;> first | rfl | exact absurd rfl hlock | exact absurd rfl hunlock | (split <;> rfl)

variable [LinearOrder F] [NatCast F]

theorem locked_run {o : Op F} (hlock : o ≠ .lock) (hunlock : o ≠ .unlock) (x : World F A)
    (s : State F A) : (run o x s).2.locked = s.locked := by
  cases o with
  | lock => exact absurd rfl hlock
  | unlock => exact absurd rfl hunlock
  | write n message =>
    simp only [run, State.write]
    split
    next => rfl
    next => split <;> rfl
  | wait n =>
    simp only [run]
    split <;> rfl
  | readline n =>
    simp only [run, State.readline]
    split
    next => cases x.flag <;> rfl
    next => rfl
  | readlineMatching n a =>
    simp only [run, State.readlineMatching]
    split
    next => cases x.flag <;> rfl
    next => rfl
  | _ => rfl

theorem locked_exec {o : Op F} (hlock : o ≠ .lock) (hunlock : o ≠ .unlock) (x : World F A)
    (s : State F A) : (exec o x s).2.locked = s.locked := by
  obtain h | ⟨e, -, h⟩ := exec_cases o x s
  · rw [h]
    exact locked_run hlock hunlock x _
  · rw [h]
    rfl

end Lock

/-! ## Orderly runs -/

section Orderly

variable {F : Type} [FloatArith F] {B : Builtins F} {mode : IsolationMode} {A : Authority F}

/-- No call that starts or ends the process of a worker comes while another call on that worker
is going on, nor the other way round; and processes print at most one result for each task. -/
def Orderly (c : (machine B mode A).Config) : (machine B mode A).Label → Prop
  | .start q => ∀ a ∈ c.calls, a.proc.result.isNone = true → ¬ q.role.Conflicts a.request.role
  | .act _ x => ∀ p ∈ (State.absorb c.state x).os, Process.Honest p

instance (c : (machine B mode A).Config) (l : (machine B mode A).Label) : Decidable (Orderly c l) :=
  match l with
  | .start q => inferInstanceAs (Decidable (∀ a ∈ c.calls, a.proc.result.isNone = true →
      ¬ Role.Conflicts (Request.role q) (Request.role a.request)))
  | .act _ x => inferInstanceAs (Decidable (∀ p ∈ (State.absorb c.state x).os, Process.Honest p))

variable (B mode A) in
abbrev OrderlyRun (store : TeamStore.Db F) (authority : A.State)
    (ls : List (machine B mode A).Label) (c : (machine B mode A).Config) : Prop :=
  Path Machine.step Orderly ((machine B mode A).initial (State.fresh store authority)) ls c

variable {store : TeamStore.Db F} {authority : A.State} {ls : List (machine B mode A).Label}
variable {c : (machine B mode A).Config}

theorem answered {G : (machine B mode A).Config → (machine B mode A).Label → Prop}
    {s₀ : State F A} : Machine.Answered (M := machine B mode A) (discipline F) G s₀ := by
  rintro ls c o x - -
  cases o with
  | unlock =>
    obtain h | ⟨e, ho, -⟩ := exec_cases (.unlock) x c.state
    · refine ⟨(), ?_⟩
      rw [show (machine B mode A).exec = exec from rfl, h]
      rfl
    · cases ho
  | _ => trivial

abbrev begins (q : Request F) : Mode := .initial q.role

omit [FloatArith F] in
theorem role_after (q : Request F) (h : List (Event (sig F) Error)) :
    Mode.role ((discipline F).after (begins q) h) = q.role := by
  induction h using List.reverseRecOn with
  | nil => rfl
  | append_singleton h e ih =>
    rw [Protocol.after_snoc]
    exact (role_next _ e.op e.ans).trans ih

theorem exclusive_run (hrun : OrderlyRun B mode A store authority ls c) :
    Machine.Exclusive (M := machine B mode A) (discipline F) Mode.inLock State.locked c.state
      (c.modes (discipline F) begins) := by
  refine Machine.modes_invariant (M := machine B mode A) (P := discipline F)
    (Q := fun _ => Unlocked) (J := fun s ms => Machine.Exclusive (M := machine B mode A)
      (discipline F) Mode.inLock State.locked s ms)
    follows_body answered (Machine.exclusive_nil rfl) ?_ ?_ hrun
  · intro s ms q he
    exact he.start rfl
  · intro c i x c' q o k h _ hact he hallow
    apply he.step hact.mode_at
    by_cases hlock : o = .lock
    · subst hlock
      have hfree : c.state.locked = false := by
        have hpossible := hact.possible
        simpa [machine] using hpossible
      obtain hexec | ⟨e, ho, -⟩ := exec_cases (.lock) x c.state
      · rw [show (machine B mode A).exec = exec from rfl, hexec]
        exact .take hallow.1 hfree rfl rfl
      · cases ho
    · by_cases hunlock : o = .unlock
      · subst hunlock
        obtain hexec | ⟨e, ho, -⟩ := exec_cases (.unlock) x c.state
        · rw [show (machine B mode A).exec = exec from rfl, hexec]
          exact .drop hallow rfl rfl
        · cases ho
      · exact .keep (inLock_next hlock hunlock _) (locked_exec hlock hunlock x c.state)

omit [FloatArith F] in
theorem honest_proc {s : State F A} (h : ∀ p ∈ s.os, p.Honest) (n : Nat) : (s.proc n).Honest := by
  rw [State.proc]
  cases hn : s.os[n]? with
  | none => simp [Process.Honest, Process.printedResults, noProcess]
  | some p => exact h p (List.mem_of_getElem? hn)

omit [FloatArith F] in
theorem inv_fresh (w : String) : Inv w (State.fresh store authority : State F A) [] := by
  refine ⟨⟨?_, ?_, ?_, ?_⟩, ?_, ?_, ?_⟩ <;> simp [State.fresh]

theorem inv_of_run (hrun : OrderlyRun B mode A store authority ls c) (w : String) :
    Inv w c.state (c.live (discipline F) begins) := by
  revert w
  refine Machine.live_invariant (M := machine B mode A) (P := discipline F)
    (Q := fun _ => Unlocked)
    (J := fun s ms => ∀ w, Inv w s ms) follows_body answered inv_fresh ?_ ?_
    ?_ hrun
  · exact fun s ms i hi w => (hi w).over i
  · intro c q hG hi w
    apply (hi w).start
    intro m hm
    obtain ⟨i, hget⟩ := List.getElem?_of_mem hm
    obtain ⟨-, a, ha, hr, rfl⟩ := Machine.live_getElem? hget
    rw [show Mode.role (a.mode (discipline F) begins) = a.request.role from role_after _ _]
    exact hG a ha (by rw [hr]; rfl)
  · intro ls c i x c' q o k h hp hG hact hi hallow
    have hm := hact.live_at (P := discipline F) begins
    have habsorb : ∀ w, Inv w (State.absorb c.state x) (c.live (discipline F) begins) := fun w =>
      (hi w).same (same_absorb w c.state x)
    have hothers : ((discipline F).after (begins q) h).inLock = true → ∀ (j : Nat) (m₁ : Mode),
        (c.live (discipline F) begins)[j]? = some (some m₁) → m₁.inLock = true → j = i :=
      fun hin j m₁ hj hin₁ => (exclusive_run hp).unique j i m₁ _ (Machine.live_getElem? hj).1
        hact.mode_at hin₁ hin
    intro w
    obtain hexec | ⟨e, -, hexec⟩ := exec_cases o x c.state
    · rw [show (machine B mode A).exec = exec from rfl, hexec]
      exact inv_run habsorb hm hothers (honest_proc hG) hallow w
    · rw [show (machine B mode A).exec = exec from rfl, hexec]
      exact inv_error habsorb hm hallow w

/-! ## Whose result a call takes -/

omit [FloatArith F] in
theorem wrote_next {m : Mode} {o : Op F} (h : ∀ n t fields, o ≠ .write n (.task t fields))
    (r : Except Error o.Ret) : (m.next o r).wrote = m.wrote := by
  unfold Mode.next
  split <;> first | rfl | exact absurd rfl (h _ _ _) | (split <;> rfl)

theorem allowed_of_acts {G : (machine B mode A).Config → (machine B mode A).Label → Prop}
    {s₀ : State F A} (hrun : Path Machine.step G ((machine B mode A).initial s₀) ls c)
    {c' : (machine B mode A).Config} {i : Nat} {x : World F A} {q : Request F} {o : Op F}
    {k : Except Error o.Ret → Call F (Response F)} {h : List (Event (sig F) Error)}
    (hact : Machine.Acts (M := machine B mode A) c i x c' q o k h) :
    Mode.Allows ((discipline F).after (begins q) h) o :=
  hact.allowed (P := discipline F) (Q := fun _ => Unlocked) follows_body answered
    hrun

omit [FloatArith F] in
theorem wrote_snoc {q : Request F} {h : List (Event (sig F) Error)} {o : Op F}
    {r : Except Error o.Ret} {n : Nat} {t : String} {fields : Reply F}
    (hallow : Mode.Allows ((discipline F).after (begins q) h) o)
    (hold : (⟨.write n (.task t fields), .ok ()⟩ : Event (sig F) Error) ∈ h →
      Mode.wrote ((discipline F).after (begins q) h) = some n ∧ ∃ w, q.role = .send w t)
    (he : (⟨.write n (.task t fields), .ok ()⟩ : Event (sig F) Error) ∈ h ++ [⟨o, r⟩]) :
    Mode.wrote ((discipline F).after (begins q) (h ++ [⟨o, r⟩])) = some n ∧
      ∃ w, q.role = .send w t := by
  rw [Protocol.after_snoc]
  obtain he | he := List.mem_append.mp he
  · obtain ⟨hw, hr⟩ := hold he
    refine ⟨(wrote_next ?_ _).trans hw, hr⟩
    rintro n' t' fields' rfl
    obtain ⟨-, -, -, hw'⟩ := hallow
    cases hw'.symm.trans hw
  · cases List.mem_singleton.mp he
    obtain ⟨hr, -⟩ := hallow
    rw [role_after] at hr
    exact ⟨rfl, hr⟩

theorem wrote_of_hist (hrun : OrderlyRun B mode A store authority ls c) :
    ∀ a ∈ c.calls, ∀ n t fields,
      (⟨.write n (.task t fields), .ok ()⟩ : Event (sig F) Error) ∈ Machine.Activity.hist a →
        Mode.wrote ((discipline F).after (begins a.request) a.hist) = some n ∧
          ∃ w, Request.role a.request = .send w t := by
  induction hrun with
  | refl => exact fun a ha => by cases ha
  | @tail c c' ls l hp _ hs ih =>
    intro a ha n t fields he
    obtain ⟨i, ha⟩ := List.getElem?_of_mem ha
    obtain ha | ⟨q, -, rfl⟩ | ⟨x, q, o, k, h, -, hact, rfl⟩ := Machine.call_step hs ha
    · exact ih a (List.mem_of_getElem? ha) n t fields he
    · cases he
    · exact wrote_snoc (allowed_of_acts hp hact)
        (ih _ (List.mem_of_getElem? hact.call) n t fields) he

end Orderly

/-! ## Two sends to one worker, side by side -/

def sampleBuiltins : Builtins Int where
  repr s := s
  str _ := ""
  int
    | .int n => .ok n
    | _ => .error (.type, "")

def noTickets : Authority Int where
  State := Unit
  Change := Empty
  change s _ := s
  issue _ _ _ _ _ _ _ _ s := (.ok (false, "denied", none), s)

abbrev sample : Machine := machine sampleBuiltins .inherited noTickets

def sampleConfig : WorkerConfig Int where
  workerId := "w"
  teamId := "team"
  role := "worker"
  harness := "native"
  model := none
  provider := none
  systemPrompt := none
  workingDir := none
  effort := none
  budgetTokens := none
  pid := none
  processCreateTime := none
  tokensConsumed := 0
  fallbackToNative := false

def printing (lines : List (Line Int)) : World Int noTickets where
  time := 1
  later := 2
  printed := lines.map fun line => (0, line)
  exits := []
  changes := []
  sessions := []
  failure := none
  flag := true
  text := "secret"
  pid := 7

def acts (i n : Nat) : List sample.Label := List.replicate n (.act i (printing []))

def initLine : Line Int := some (.obj [("type", .str "INIT"), ("pid", .int 7)])

def resultLine : Line Int :=
  let reason := "Task without command or instruction cannot be executed"
  some (.obj [("type", .str "RESULT"), ("task_id", .str "t1"), ("status", .str "NOT_IMPLEMENTED"),
    ("reason", .str reason), ("error", .str reason), ("timestamp", .float 1)])

def overlapping : List sample.Label :=
  .start (.spawnWorker sampleConfig none) :: acts 0 5 ++ .act 0 (printing [initLine]) :: acts 0 9 ++
    [.start (.dispatchTaskToWorker "w" "t1" [] 5), .start (.sendTaskAsync "w" "t2" [])] ++
      acts 2 5 ++ acts 1 13 ++ acts 2 3

def resumed : List sample.Label :=
  overlapping ++ .act 1 (printing [resultLine]) :: acts 1 4 ++
    .start (.sendTaskAsync "w" "t2" []) :: acts 3 12

abbrev fresh : State Int noTickets := .fresh ⟨[], [], [], [], [], []⟩ ()

def overlapped : Option sample.Config :=
  Library.exec (restrict Machine.step Orderly) (sample.initial fresh) overlapping

/-! ## The results -/

section Results

variable {F : Type} [FloatArith F] {B : Builtins F} {mode : IsolationMode} {A : Authority F}
variable {store : TeamStore.Db F} {authority : A.State} {ls : List (machine B mode A).Label}
variable {c : (machine B mode A).Config}

/-- Whatever calls run side by side, at each process at most one task is outstanding, and the
results are those of the tasks before it, in their order. -/
theorem at_most_one_outstanding (hrun : OrderlyRun B mode A store authority ls c) :
    ∀ p ∈ State.os c.state, p.results <+: p.tasks ∧ p.tasks.length ≤ p.results.length + 1 := by
  intro p hp
  obtain ⟨n, hn⟩ := List.getElem?_of_mem hp
  have hproc : State.proc c.state n = p := by
    show ((State.os c.state)[n]?).getD _ = p
    rw [hn]
    rfl
  have hb := (inv_of_run hrun p.workerId).booked.balanced n (List.getElem?_eq_some_iff.mp hn).1
    (by rw [hproc])
  rw [hproc] at hb
  obtain hs | ⟨t, ht⟩ := hb
  · rw [hs]
    exact ⟨List.prefix_rfl, by omega⟩
  · rw [ht]
    exact ⟨List.prefix_append .., by simp⟩

theorem overlapping_one_outstanding : ∃ c, (State.os c.state).map Process.tasks = [["t1", "t2"]] ∧
    (State.os c.state).map Process.results = [["t1"]] ∧
    OrderlyRun sampleBuiltins .inherited noTickets ⟨[], [], [], [], [], []⟩ () resumed c ∧
    ∀ p ∈ State.os c.state, p.results <+: p.tasks ∧ p.tasks.length ≤ p.results.length + 1 := by
  have h : (Library.exec (restrict Machine.step Orderly) (sample.initial fresh) resumed).any
      (fun c => decide ((State.os c.state).map Process.tasks = [["t1", "t2"]] ∧
        (State.os c.state).map Process.results = [["t1"]])) = true := by
    decide +kernel
  obtain ⟨c, hrun, hc⟩ := run_of_any h
  obtain ⟨htasks, hresults⟩ := of_decide_eq_true hc
  exact ⟨c, htasks, hresults, path_of_restrict hrun,
    at_most_one_outstanding (path_of_restrict hrun)⟩

/-- The result that a call takes is that of the last task of a process of its worker, which has
none outstanding then; a call that has written a task itself takes the result of this task, from
the process that it wrote to. -/
theorem takes_own_result (hrun : OrderlyRun B mode A store authority ls c) {i k : Nat}
    {x : World F A} {c' : (machine B mode A).Config} {a : (machine B mode A).Activity} {t : String}
    {event : Reply F} {h : List (Event (sig F) Error)} (hG : Orderly c (.act i x))
    (hs : Machine.step c (.act i x) = some c') (ha : c'.calls[i]? = some a)
    (hh : a.hist = h ++ [⟨.readlineMatching k (.result t), .ok (some event)⟩]) :
    Role.concerns (Request.role a.request) ((State.absorb c.state x).proc k).workerId ∧
      ((State.absorb c.state x).proc k).tasks = ((State.absorb c.state x).proc k).results ++ [t] ∧
      (State.proc c'.state k).Settled ∧
      ∀ n t' fields, (⟨.write n (.task t' fields), .ok ()⟩ : Event (sig F) Error) ∈ h →
        n = k ∧ t' = t := by
  obtain ⟨q, o, kont, h', hact⟩ := Machine.step_act hs
  obtain rfl := Option.some.inj (ha.symm.trans hact.call_after)
  obtain ⟨rfl, hevent⟩ := List.append_singleton_inj.mp hh
  obtain rfl : o = .readlineMatching k (.result t) := congrArg Event.op hevent
  have hans : (exec (A := A) (.readlineMatching k (.result t)) x c.state).1 = .ok (some event) :=
    eq_of_heq (Event.mk.inj hevent).2
  have hallow := allowed_of_acts hrun hact
  have hm := hact.live_at (P := discipline F) begins
  have hi : ∀ w, Inv w (State.absorb c.state x) (c.live (discipline F) begins) := fun w =>
    (inv_of_run hrun w).same (same_absorb w c.state x)
  obtain ⟨n, hn, hclaim⟩ := hallow.2.2
  obtain rfl := reader_eq_target hi hm hallow hn
  have hrole := role_after q h'
  obtain ⟨w, htasks⟩ : ∃ w, Mode.Tasks w ((discipline F).after (begins q) h') := by
    obtain ⟨⟨w, hr⟩, -⟩ | ⟨⟨w, hr⟩, -⟩ := hclaim
    · exact ⟨w, .inl ⟨t, hr⟩⟩
    · exact ⟨w, .inr ⟨t, hr⟩⟩
  obtain ⟨hlt, hw, -⟩ := (((hi w).fits i _ hm htasks.concerns).tasked htasks).target k hn
  have hexec : exec (A := A) (.readlineMatching k (.result t)) x c.state =
      run (.readlineMatching k (.result t)) x (State.absorb c.state x) := by
    obtain hexec | ⟨e, -, hexec⟩ := exec_cases (A := A) (.readlineMatching k (.result t)) x c.state
    · exact hexec
    · rw [hexec] at hans
      cases hans
  have hstate :
    c'.state = (run (.readlineMatching k (.result t)) x (State.absorb c.state x)).2 := by
    rw [hact.result, ← hexec]
    rfl
  rw [hexec] at hans
  simp only [run, State.readlineMatching] at hans hstate
  split at hans
  next ev p htake =>
    obtain ⟨hlast, -, -, hsettled, -⟩ :=
      take_result (honest_proc hG k) ((hi w).booked.balanced k hlt hw) htake
    have hflag : x.flag = true := by
      cases hflag : x.flag with
      | true => rfl
      | false =>
        rw [hflag] at hans
        cases hans
    refine ⟨?_, hlast, ?_, fun n t' fields he => ?_⟩
    · rw [hw, ← hrole]
      exact htasks.concerns
    · rw [hstate, htake, hflag]
      show Process.Settled (State.proc (State.setProc _ k fun _ => p) k)
      rw [proc_setProc, if_pos ⟨rfl, hlt⟩]
      exact hsettled
    · obtain ⟨hn', w', hr'⟩ :=
        wrote_of_hist hrun _ (List.mem_of_getElem? hact.call) n t' fields he
      obtain ⟨⟨w₁, hr⟩, -, hw₁⟩ | ⟨⟨w₁, hr⟩, -⟩ := hclaim
      · rw [hrole.trans hr'] at hr
        cases hr
        exact ⟨Option.some.inj (hn'.symm.trans hw₁), rfl⟩
      · rw [hrole.trans hr'] at hr
        cases hr
  next => cases hans

def lastTaken (h : List (Event (WorkerProcess.sig Int) Error)) : Option (Nat × String) :=
  match h.getLast? with
  | some ⟨.readlineMatching k (.result t), .ok (some _)⟩ => some (k, t)
  | _ => none

theorem eq_of_lastTaken {h : List (Event (WorkerProcess.sig Int) Error)} {k : Nat} {t : String}
    (hk : lastTaken h = some (k, t)) : ∃ h' event,
      h = h' ++ [⟨.readlineMatching k (.result t), .ok (some event)⟩] := by
  rw [lastTaken] at hk
  split at hk
  next k' t' event hlast =>
    cases hk
    obtain ⟨h', rfl⟩ := List.getLast?_eq_some_iff.mp hlast
    exact ⟨h', event, rfl⟩
  next => cases hk

theorem overlapping_own_result : ∃ (c c' : sample.Config),
    OrderlyRun sampleBuiltins .inherited noTickets ⟨[], [], [], [], [], []⟩ () overlapping c ∧
      Machine.step c (.act 1 (printing [resultLine])) = some c' ∧
      ((State.absorb c.state (printing [resultLine])).proc 0).tasks =
        ((State.absorb c.state (printing [resultLine])).proc 0).results ++ ["t1"] ∧
      (State.proc c'.state 0).Settled := by
  have h : overlapped.any (fun c => decide (Orderly c (.act 1 (printing [resultLine]))) &&
      (Machine.step c (.act 1 (printing [resultLine]))).any fun c' =>
        c'.calls[1]?.any fun a => decide (lastTaken a.hist = some (0, "t1"))) = true := by
    decide +kernel
  obtain ⟨c, hrun, hc⟩ := run_of_any h
  rw [Bool.and_eq_true, Option.any_eq_true] at hc
  obtain ⟨hG, c', hs, hc'⟩ := hc
  obtain ⟨a, ha, htaken⟩ := (Option.any_eq_true _ _).mp hc'
  obtain ⟨h', event, hh⟩ := eq_of_lastTaken (of_decide_eq_true htaken)
  obtain ⟨-, htasks, hsettled, -⟩ :=
    takes_own_result (path_of_restrict hrun) (of_decide_eq_true hG) hs ha hh
  exact ⟨c, c', path_of_restrict hrun, hs, htasks, hsettled⟩

end Results

end SubagentBridge.WorkerProcess
