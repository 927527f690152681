import SubagentBridge.Execution.WorkerProcess

/-! The controller at work: its variables, the processes that it started, and calls from any
number of threads. -/

namespace SubagentBridge.WorkerProcess

open Library Domain

structure Authority (F : Type) where
  State : Type
  Change : Type
  change : State → Change → State
  issue : (actionId : Value F) → (workerId taskId : String) → (command : List String) →
    (workspacePath sessionSecret : String) → (now later : F) → State →
    Except Error (VerifiedOperatorAuthority.Answer F) × State

/-- A process, with the lines that were written to it and what came back: the lines that nobody
has read yet, and those that were taken from the stream. -/
structure Process (F : Type) where
  pid : Int
  argv : List String
  cwd : Option String
  stdin : List (Message F)
  unread : List (Line F)
  taken : List (Line F)
  exit : Option Int
  returncode : Option Int
  closed : Bool

structure State (F : Type) (A : Authority F) where
  locked : Bool
  processes : Dict String Nat
  readers : Dict String Nat
  recordIds : Dict String Nat
  records : List (WorkerProcessRecord F)
  jobHandles : List String
  busyWorkers : List String
  busyTaskIds : Dict String String
  store : TeamStore.Db F
  authority : A.State
  os : List (Process F)

/-- What the environment contributes to a step: the clock, what workers have printed and which of
them have ended since the last step, what others have done to the authority and to the sessions,
whether the operation fails, and the answers that are up to the system. -/
structure World (F : Type) (A : Authority F) where
  time : F
  later : F
  printed : List (Nat × Line F)
  exits : List (Nat × Int)
  changes : List A.Change
  sessions : List (AgentSession F)
  failure : Option Error
  flag : Bool
  text : String
  pid : Int

section Processes

variable {F : Type}

def Process.workerId (p : Process F) : String := (p.argv[4]?).getD ""

def Message.taskId? : Message F → Option String
  | .task taskId _ => some taskId
  | _ => none

def resultId? (line : Line F) : Option String :=
  (line.bind Json.members).bind fun event =>
    if (fetch event "type").text = some "RESULT" then (fetch event "task_id").text else none

def Process.tasks (p : Process F) : List String := p.stdin.filterMap Message.taskId?

def Process.results (p : Process F) : List String := p.taken.filterMap resultId?

def Process.printedResults (p : Process F) : List String :=
  (p.taken ++ p.unread).filterMap resultId?

def Process.Honest (p : Process F) : Prop :=
  ∀ t, p.printedResults.count t ≤ p.tasks.count t

instance (p : Process F) : Decidable p.Honest :=
  decidable_of_iff (∀ t ∈ p.printedResults, p.printedResults.count t ≤ p.tasks.count t) (by
    refine ⟨fun h t => ?_, fun h t _ => h t⟩
    by_cases ht : t ∈ p.printedResults
    · exact h t ht
    · rw [List.count_eq_zero.mpr ht]
      exact Nat.zero_le _)

def Process.print (p : Process F) (line : Line F) : Process F :=
  { p with unread := p.unread ++ [line] }

def Process.finish (p : Process F) (code : Int) : Process F :=
  { p with exit := p.exit.or (some code) }

def Process.take (p : Process F) (a : Awaited) : Option (Reply F × Process F) :=
  match p.unread.find? fun line => (a.event? line).isSome with
  | none => none
  | some line => (a.event? line).map fun event => (event, { p with
      unread := p.unread.eraseP fun line => (a.event? line).isSome
      taken := p.taken ++ [line] })

end Processes

section State

variable {F : Type} {A : Authority F}

/-- What happened since the last step. -/
def State.absorb (s : State F A) (w : World F A) : State F A :=
  { s with
    os := w.exits.foldl (fun os x => os.modify x.1 (·.finish x.2))
      (w.printed.foldl (fun os x => os.modify x.1 (·.print x.2)) s.os)
    authority := w.changes.foldl A.change s.authority
    store := w.sessions.foldl TeamStore.Db.saveSession s.store }

def State.setProc (s : State F A) (n : Nat) (f : Process F → Process F) : State F A :=
  { s with os := s.os.modify n f }

def State.setRec (s : State F A) (r : Nat) (f : WorkerProcessRecord F → WorkerProcessRecord F) :
    State F A :=
  { s with records := s.records.modify r f }

def noProcess (F : Type) : Process F := ⟨0, [], none, [], [], [], some 0, some 0, true⟩

def State.proc (s : State F A) (n : Nat) : Process F := (s.os[n]?).getD (noProcess F)

end State

section Run

variable {F : Type} [LinearOrder F] [NatCast F] {A : Authority F}

def noRecord (F : Type) [NatCast F] : WorkerProcessRecord F :=
  ⟨"", "", 0, .archived, (0 : Nat), (0 : Nat), none, 0, none, none, "", ""⟩

/-- What `write` does: a closed pipe refuses the line, and so does one that nobody reads. -/
def State.write (s : State F A) (n : Nat) (message : Message F) : Except Error Unit × State F A :=
  if (s.proc n).closed then (.error ⟨.value, "I/O operation on closed file"⟩, s)
  else if (s.proc n).exit.isSome then (.error ⟨.os, "[Errno 32] Broken pipe"⟩, s)
  else (.ok (), s.setProc n fun p => { p with stdin := p.stdin ++ [message] })

def State.readline (s : State F A) (n : Nat) (inTime : Bool) : Option (Line F) × State F A :=
  match (s.proc n).unread with
  | line :: rest =>
    if inTime then (some line, s.setProc n fun p =>
      { p with unread := rest, taken := p.taken ++ [line] })
    else (none, s)
  | [] => (none, s)

def State.readlineMatching (s : State F A) (n : Nat) (a : Awaited) (inTime : Bool) :
    Option (Reply F) × State F A :=
  match (s.proc n).take a with
  | some (event, p) => if inTime then (some event, s.setProc n fun _ => p) else (none, s)
  | none => (none, s)

def run : (o : Op F) → World F A → State F A → Except Error o.Ret × State F A
  | .lock, _, s => (.ok (), { s with locked := true })
  | .unlock, _, s => (.ok (), { s with locked := false })
  | .processOf workerId, _, s => (.ok (s.processes.get? workerId), s)
  | .readerOf workerId, _, s => (.ok (s.readers.get? workerId), s)
  | .recordOf workerId, _, s => (.ok (s.recordIds.get? workerId), s)
  | .processes, _, s => (.ok s.processes, s)
  | .recordIds, _, s => (.ok s.recordIds, s)
  | .record r, _, s => (.ok ((s.records[r]?).getD (noRecord F)), s)
  | .isBusy workerId, _, s => (.ok (workerId ∈ s.busyWorkers), s)
  | .busyTaskId workerId, _, s => (.ok (s.busyTaskIds.get? workerId), s)
  | .setProcess workerId n, _, s => (.ok (), { s with processes := s.processes.set workerId n })
  | .setReader workerId n, _, s => (.ok (), { s with readers := s.readers.set workerId n })
  | .setJobHandle workerId, _, s => (.ok (), { s with jobHandles := workerId :: s.jobHandles })
  | .setRecord workerId record, _, s => (.ok (), { s with
      recordIds := s.recordIds.set workerId s.records.length
      records := s.records ++ [record] })
  | .dropProcess workerId, _, s => (.ok (), { s with processes := s.processes.erase workerId })
  | .dropReader workerId, _, s => (.ok (), { s with readers := s.readers.erase workerId })
  | .dropJobHandle workerId, _, s =>
    (.ok (), { s with jobHandles := s.jobHandles.filter (· ≠ workerId) })
  | .setStatus r status, _, s => (.ok (), s.setRec r fun record => { record with status })
  | .setExitCode r exitCode, _, s => (.ok (), s.setRec r fun record => { record with exitCode })
  | .setTokens r tokens, _, s =>
    (.ok (), s.setRec r fun record => { record with tokensConsumed := tokens })
  | .setHeartbeat r time, _, s =>
    (.ok (), s.setRec r fun record => { record with lastHeartbeat := time })
  | .addBusy workerId, _, s => (.ok (), { s with busyWorkers := workerId :: s.busyWorkers })
  | .setBusyTaskId workerId taskId, _, s =>
    (.ok (), { s with busyTaskIds := s.busyTaskIds.set workerId taskId })
  | .discardBusy workerId, _, s =>
    (.ok (), { s with busyWorkers := s.busyWorkers.filter (· ≠ workerId) })
  | .dropBusyTaskId workerId, _, s =>
    (.ok (), { s with busyTaskIds := s.busyTaskIds.erase workerId })
  | .issueExecutionTicket actionId workerId taskId command workspacePath sessionSecret, w, s =>
    (A.issue actionId workerId taskId command workspacePath sessionSecret w.time w.later
      s.authority).map id fun authority => { s with authority }
  | .loadSession workerId, _, s => (.ok (s.store.loadSession workerId), s)
  | .saveSession session, _, s => (.ok (), { s with store := s.store.saveSession session })
  | .listAllSessions, _, s => (.ok ((s.store.sessions.map (·.2)).insertionSort fun a b =>
      a.createdAt ≤ b.createdAt), s)
  | .now, w, s => (.ok w.time, s)
  | .createTimeOf _, w, s => (.ok w.later, s)
  | .tokenHex, w, s | .resolve _, w, s | .readStderr _, w, s => (.ok w.text, s)
  | .isDir _, w, s | .hasIdentity _, w, s | .identicallyAlive _ _, w, s => (.ok w.flag, s)
  | .launchConfiguration, _, s | .restrictJob _, _, s | .killTree _, _, s => (.ok (), s)
  | .popen argv cwd, w, s => (.ok s.os.length, { s with
      os := s.os ++ [⟨w.pid, argv, cwd, [], [], [], none, none, false⟩] })
  | .pid n, _, s => (.ok (s.proc n).pid, s)
  | .poll n, _, s => (.ok (s.proc n).exit, s.setProc n fun p => { p with returncode := p.exit })
  | .returncode n, _, s => (.ok (s.proc n).returncode, s)
  | .stdinClosed n, _, s => (.ok (s.proc n).closed, s)
  | .closePipes n, _, s => (.ok (), s.setProc n fun p => { p with closed := true })
  | .write n message, _, s => s.write n message
  | .wait n, _, s =>
    if (s.proc n).exit.isSome then (.ok (), s.setProc n fun p => { p with returncode := p.exit })
    else (.error ⟨.timeoutExpired, ""⟩, s)
  | .readline n, w, s => (s.readline n w.flag).map .ok id
  | .readlineMatching n a, w, s => (s.readlineMatching n a w.flag).map .ok id

omit [LinearOrder F] [NatCast F] in
def Op.fallible : Op F → Bool
  | .loadSession _ | .saveSession _ | .listAllSessions | .resolve _ | .launchConfiguration
  | .popen _ _ | .restrictJob _ | .hasIdentity _ | .readStderr _ | .createTimeOf _ | .write _ _ =>
    true
  | _ => false

def exec (o : Op F) (w : World F A) (s : State F A) : Except Error o.Ret × State F A :=
  match w.failure with
  | some e => if o.fallible then (.error e, s.absorb w) else run o w (s.absorb w)
  | none => run o w (s.absorb w)

end Run

/-! ## Calls -/

inductive Request (F : Type)
  | spawnWorker (config : WorkerConfig F) (worktreePath : Option String)
  | hasAttachedWorkerIpc (workerId : String)
  | isWorkerDispatchable (workerId : String)
  | isWorkerAlive (workerId : String)
  | getWorkerRecord (workerId : String)
  | pingWorker (workerId : String)
  | dispatchTaskToWorker (workerId taskId : String) (payload : Payload F) (timeout : F)
  | sendTaskAsync (workerId taskId : String) (payload : Payload F)
  | collectAsyncResult (workerId taskId : String)
  | interruptWorker (workerId taskId : String)
  | pauseWorker (workerId : String)
  | resumeWorker (workerId : String)
  | switchWorkerHarness (workerId newHarness : String)
      (newModel newProvider newEffort : Option String) (fallbackToNative : Option Bool)
  | terminateWorker (workerId : String)
  | terminateAll
  | reapDeadWorkers
  | registerPersistedSession (workerId : String) (config : WorkerConfig F) (pid : Int)
      (createTime : Option F)
  | reconcileRehydratedSessions

inductive Response (F : Type)
  | done
  | flag (b : Bool)
  | record (r : Option (WorkerProcessRecord F))
  | event (e : Option (Reply F))
  | answer (a : Answer F)
  | workers (ids : List String)

def body {F : Type} [FloatArith F] (B : Builtins F) (mode : IsolationMode) :
    Request F → Call F (Response F)
  | .spawnWorker config worktreePath =>
    (spawnWorker B mode config worktreePath).bind fun r => .ret (.record (some r))
  | .hasAttachedWorkerIpc workerId => (hasAttachedWorkerIpc workerId).bind fun b => .ret (.flag b)
  | .isWorkerDispatchable workerId => (isWorkerDispatchable workerId).bind fun b => .ret (.flag b)
  | .isWorkerAlive workerId => (isWorkerAlive workerId).bind fun b => .ret (.flag b)
  | .getWorkerRecord workerId => (getWorkerRecord workerId).bind fun r => .ret (.record r)
  | .pingWorker workerId => (pingWorker workerId).bind fun e => .ret (.event e)
  | .dispatchTaskToWorker workerId taskId payload timeout =>
    (dispatchTaskToWorker B workerId taskId payload timeout).bind fun a => .ret (.answer a)
  | .sendTaskAsync workerId taskId payload =>
    (sendTaskAsync B workerId taskId payload).bind fun _ => .ret .done
  | .collectAsyncResult workerId taskId =>
    (collectAsyncResult B workerId taskId).bind fun a => .ret (.answer a)
  | .interruptWorker workerId taskId =>
    (interruptWorker workerId taskId).bind fun b => .ret (.flag b)
  | .pauseWorker workerId => (pauseWorker workerId).bind fun b => .ret (.flag b)
  | .resumeWorker workerId => (resumeWorker workerId).bind fun b => .ret (.flag b)
  | .switchWorkerHarness workerId newHarness newModel newProvider newEffort fallbackToNative =>
    (switchWorkerHarness B workerId newHarness newModel newProvider newEffort
      fallbackToNative).bind fun b => .ret (.flag b)
  | .terminateWorker workerId => (terminateWorker workerId).bind fun b => .ret (.flag b)
  | .terminateAll => terminateAll.bind fun _ => .ret .done
  | .reapDeadWorkers => reapDeadWorkers.bind fun ids => .ret (.workers ids)
  | .registerPersistedSession workerId config pid createTime =>
    (registerPersistedSession workerId config pid createTime).bind fun _ => .ret .done
  | .reconcileRehydratedSessions =>
    reconcileRehydratedSessions.bind fun ids => .ret (.workers ids)

def machine {F : Type} [FloatArith F] (B : Builtins F) (mode : IsolationMode) (A : Authority F) :
    Machine where
  sig := sig F
  Err := Error
  Res := Response F
  Request := Request F
  State := State F A
  World := World F A
  possible o _ s := match o with
    | .lock => !s.locked
    | _ => true
  exec := exec
  body := body B mode

def State.fresh {F : Type} {A : Authority F} (store : TeamStore.Db F) (authority : A.State) :
    State F A :=
  ⟨false, [], [], [], [], [], [], [], store, authority, []⟩

end SubagentBridge.WorkerProcess
