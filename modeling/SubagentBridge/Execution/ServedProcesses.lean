import SubagentBridge.Execution.TaskRuns
import SubagentBridge.Execution.WorkerReplies

/-! The two ends of a pipe: a process of the controller that runs the program of a worker prints at
most one result for each task that it was given. -/

namespace SubagentBridge.WorkerProcess

open Library WorkerThreads
open OperatorBoundary (Env)

section Pipe

variable {F : Type}

def ofOption : Option String → Json F
  | none => .null
  | some s => .str s

def Message.members : Message F → Reply F
  | .initAck sessionSecret =>
    [("command", .str "INIT_ACK"), ("session_secret", .str sessionSecret)]
  | .ping => [("command", .str "PING")]
  | .task taskId payload =>
    [("command", .str "TASK"), ("task_id", .str taskId), ("payload", .obj payload)]
  | .interrupt taskId => [("command", .str "INTERRUPT"), ("task_id", .str taskId)]
  | .reconfigure requestId harness model provider effort fallbackToNative =>
    [("command", .str "RECONFIGURE"), ("request_id", .str requestId), ("harness", .str harness),
      ("model", ofOption model), ("provider", ofOption provider), ("effort", ofOption effort),
      ("fallback_to_native", .bool fallbackToNative)]
  | .stop => [("command", .str "STOP")]

def Message.line (m : Message F) : Input F := .json (.obj m.members)

/-- After the handshake the process was given `inputs`; and apart from the handshake, what came
back from it so far is among what it has sent. -/
structure Piped (p : Process F) (inputs : List (Input F)) (sent : List (Reply F)) : Prop where
  input : ∃ handshake rest, p.stdin = handshake ++ rest ∧
    (∀ m ∈ handshake, Message.taskId? m = none) ∧ inputs = rest.map Message.line
  output : ∃ handshake : List (Line F), (∀ line ∈ handshake, resultId? line = none) ∧
    (p.taken ++ p.unread).Subperm (handshake ++ sent.map fun event => some (.obj event))

def names (ids : List (Option (Json F))) : List String := ids.filterMap fun id => id.bind Json.text

theorem names_append (ids ids' : List (Option (Json F))) :
    names (ids ++ ids') = names ids ++ names ids' := List.filterMap_append

theorem names_replyTo (event : Reply F) :
    names (replyTo event) = (resultId? (some (.obj event))).toList := by
  have hid : resultId? (some (.obj event)) = if (fetch event "type").text = some "RESULT" then
    (fetch event "task_id").text else none := rfl
  rw [hid, replyTo]
  split
  next =>
    rw [fetch]
    cases event.get? "task_id" with
    | none => rfl
    | some v => cases hv : v.text <;> simp [names, hv]
  next => rfl

theorem names_replies (sent : List (Reply F)) :
    (sent.map fun event => some (.obj event)).filterMap resultId? = names (replies sent) := by
  induction sent with
  | nil => rfl
  | cons event sent ih =>
    have hcons : replies (event :: sent) = replyTo event ++ replies sent := rfl
    rw [hcons, names_append, names_replyTo, ← ih, List.map_cons, List.filterMap_cons]
    cases resultId? (some (.obj event)) <;> rfl

theorem names_owedFor (m : Message F) : names (owedFor m.members) = m.taskId?.toList := by
  cases m <;> simp [owedFor, Message.members, Message.taskId?, names, fetch, Dict.get?_cons,
    Json.text, Worker.taskIdOf]

theorem names_owed (ms : List (Message F)) :
    names (owed (messages (ms.map Message.line))) = ms.filterMap Message.taskId? := by
  induction ms with
  | nil => rfl
  | cons m ms ih =>
    have hcons : owed (messages ((m :: ms).map Message.line)) =
      owedFor m.members ++ owed (messages (ms.map Message.line)) := rfl
    rw [hcons, names_append, names_owedFor, ih, List.filterMap_cons]
    cases m.taskId? <;> rfl

variable {p : Process F} {inputs : List (Input F)} {sent : List (Reply F)}

theorem Piped.tasks (hp : Piped p inputs sent) : p.tasks = names (owed (messages inputs)) := by
  obtain ⟨handshake, rest, hstdin, hhandshake, rfl⟩ := hp.input
  rw [names_owed, Process.tasks, hstdin, List.filterMap_append,
    List.filterMap_eq_nil_iff.mpr hhandshake, List.nil_append]

theorem Piped.printed (hp : Piped p inputs sent) :
    p.printedResults.Subperm (names (replies sent)) := by
  obtain ⟨handshake, hhandshake, l, hl, hsub⟩ := hp.output
  refine ⟨l.filterMap resultId?, hl.filterMap resultId?, ?_⟩
  have hfilter := hsub.filterMap resultId?
  rwa [List.filterMap_append, List.filterMap_eq_nil_iff.mpr hhandshake, List.nil_append,
    names_replies] at hfilter

theorem Piped.honest (hp : Piped p inputs sent)
    (hsent : replies sent <+: owed (messages inputs)) : p.Honest := by
  intro t
  rw [hp.tasks]
  exact (hp.printed.count_le t).trans ((hsent.filterMap _).sublist.count_le t)

end Pipe

section Served

variable {F : Type} [FloatArith F]

def Served (E : Env F) (B : Builtins F) (host : Worker.Host) (os : List (Process F)) : Prop :=
  ∀ p ∈ os, ∃ args patience rounds L inputs ls,
    ∃ c : (WorkerThreads.machine E B host args patience).Config,
      Path Machine.step (Real E B host args patience)
          (launched E B host args patience rounds L inputs) ls c ∧
        Piped p inputs (WorkerThreads.State.sent c.state)

/-- The conditions on a run of the controller, with the program of the workers in place of what is
assumed of them. -/
def OrderlyServed {B : Builtins F} (E : Env F) (host : Worker.Host) {mode : IsolationMode}
    {A : Authority F} (c : (machine B mode A).Config) : (machine B mode A).Label → Prop
  | .start q => Orderly c (.start q)
  | .act _ x => Served E B host (State.os (State.absorb c.state x))

theorem orderly_of_served {E : Env F} {B : Builtins F} {host : Worker.Host} {mode : IsolationMode}
    {A : Authority F} {store : TeamStore.Db F} {authority : A.State}
    {ls : List (machine B mode A).Label} {c : (machine B mode A).Config}
    (hrun : Path Machine.step (OrderlyServed E host)
      ((machine B mode A).initial (State.fresh store authority)) ls c) :
    OrderlyRun B mode A store authority ls c := by
  refine hrun.mono fun c l hserved => ?_
  cases l with
  | start q => exact hserved
  | act i x =>
    intro p hp
    obtain ⟨_, _, _, _, _, _, _, hpath, hpiped⟩ := hserved p hp
    obtain ⟨_, _, _, _, _, -, ha⟩ := accounted hpath
    exact hpiped.honest ha.repliesOwed

end Served

/-! ## Two sends side by side, again -/

section Sample

abbrev worker : Machine :=
  WorkerThreads.machine Worker.sampleEnv sampleBuiltins Worker.sampleHost Worker.sampleArgs 1

def served : List worker.Label :=
  List.replicate 2 (.act 1 sampleWorld) ++ List.replicate 4 (.act 0 sampleWorld)

def behind (p : Process Int) : Option worker.Config :=
  Library.exec
    (restrict Machine.step
      (Real Worker.sampleEnv sampleBuiltins Worker.sampleHost Worker.sampleArgs 1))
    (launched Worker.sampleEnv sampleBuiltins Worker.sampleHost Worker.sampleArgs 1 4
      Worker.sampleLocal ((p.stdin.drop 1).map Message.line))
    served

def Speaks (p : Process Int) : Prop :=
  p.printedResults = [] ∨ (∀ m ∈ p.stdin.take 1, Message.taskId? m = none) ∧
    (behind p).any (fun c => decide ((p.taken ++ p.unread).Sublist
      (initLine :: (WorkerThreads.State.sent c.state).map fun event => some (.obj event)))) = true

instance (p : Process Int) : Decidable (Speaks p) := inferInstanceAs (Decidable (_ ∨ _))

theorem served_of_speaks {os : List (Process Int)} (h : ∀ p ∈ os, Speaks p) :
    Served Worker.sampleEnv sampleBuiltins Worker.sampleHost os := by
  intro p hp
  rcases h p hp with hsilent | ⟨hhandshake, hbehind⟩
  · refine ⟨Worker.sampleArgs, 1, 4, Worker.sampleLocal, p.stdin.map Message.line, [], _, .refl, ?_,
      ?_⟩
    · exact ⟨[], p.stdin, rfl, nofun, rfl⟩
    · refine ⟨p.taken ++ p.unread, List.filterMap_eq_nil_iff.mp hsilent, ?_⟩
      exact (List.sublist_append_left _ _).subperm
  · obtain ⟨c, hrun, hc⟩ := run_of_any hbehind
    refine ⟨Worker.sampleArgs, 1, 4, Worker.sampleLocal, _, served, c,
      path_of_restrict hrun, ?_, ?_⟩
    · exact ⟨p.stdin.take 1, p.stdin.drop 1, (List.take_append_drop 1 p.stdin).symm,
        hhandshake, rfl⟩
    · refine ⟨[initLine], by decide, ?_⟩
      exact (of_decide_eq_true hc).subperm

def Spoken (c : sample.Config) : sample.Label → Prop
  | .start q => Orderly c (.start q)
  | .act _ x => ∀ p ∈ (State.absorb c.state x).os, Speaks p

instance (c : sample.Config) (l : sample.Label) : Decidable (Spoken c l) :=
  match l with
  | .start q => inferInstanceAs (Decidable (Orderly c (.start q)))
  | .act _ x => inferInstanceAs (Decidable (∀ p ∈ (State.absorb c.state x).os, Speaks p))

theorem overlapping_served : ∃ c : sample.Config,
    (State.os c.state).map Process.results = [["t1"]] ∧
      Path Machine.step (OrderlyServed Worker.sampleEnv Worker.sampleHost) (sample.initial fresh)
        resumed c ∧
      OrderlyRun sampleBuiltins .inherited noTickets ⟨[], [], [], [], [], []⟩ () resumed c := by
  have h : (Library.exec (restrict Machine.step Spoken) (sample.initial fresh) resumed).any
      (fun c => decide ((State.os c.state).map Process.results = [["t1"]])) = true := by
    decide +kernel
  obtain ⟨c, hrun, hc⟩ := run_of_any h
  have hserved : Path Machine.step (OrderlyServed Worker.sampleEnv Worker.sampleHost)
      (sample.initial fresh) resumed c := by
    refine (path_of_restrict hrun).mono fun c l hspoken => ?_
    cases l with
    | start q => exact hspoken
    | act i x => exact served_of_speaks hspoken
  exact ⟨c, of_decide_eq_true hc, hserved, orderly_of_served hserved⟩

end Sample

end SubagentBridge.WorkerProcess
