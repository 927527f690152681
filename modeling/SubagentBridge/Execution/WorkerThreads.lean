import SubagentBridge.Execution.TaskAnswers
import SubagentBridge.Library.Locks
import SubagentBridge.Library.Threads

/-! The two threads of a worker process: one reads its input, the main one serves what was read. -/

namespace SubagentBridge.WorkerThreads

open Library Worker
open OperatorBoundary (Env)

inductive Input (F : Type)
  | blank
  | invalid (reason : String)
  | json (v : Json F)

inductive Op (F : Type)
  | readline
  | put (msg : Option (Dict String (Json F)))
  | get
  | own (o : Worker.Op F)

abbrev Op.Ret {F : Type} : Op F → Type
  | .readline => Option (Input F)
  | .put _ => Unit
  | .get => Option (Dict String (Json F))
  | .own o => o.Ret

abbrev sig (F : Type) : Signature := ⟨Op F, Op.Ret⟩

abbrev Call (F α : Type) := Proc (sig F) Error α

def perform {F : Type} (o : Op F) : Call F o.Ret := Proc.op (S := sig F) o

def turns (F : Type) : Embedding (Worker.sig F) (sig F) := ⟨.own, fun _ r => r⟩

section Threads

variable {F : Type}

def Input.msg? : Input F → Option (Dict String (Json F))
  | .json v => v.members
  | _ => none

def preempt (msg : Dict String (Json F)) : Call F Unit :=
  Proc.when ((fetch msg "command").text = some "INTERRUPT") do
    perform (.own .setCancel)
    (perform (.own .terminateActive)).tryCatch fun e =>
      if e.kind = .os then .ret () else .raise e

def readInput (input : Input F) : Call F Unit :=
  match input with
  | .invalid reason => perform (.own (.sendEvent [("type", .str "ERROR"),
      ("error", .str ("Invalid JSON: " ++ reason))]))
  | _ => match input.msg? with
    | none => return ()
    | some msg => do
      preempt msg
      perform (.put (some msg))

def readLoop : (n : Nat) → Call F Unit
  | 0 => .raise ⟨.cutShort, ""⟩
  | n + 1 => do
    match ← perform .readline with
    | none => return ()
    | some input => do
      readInput input
      readLoop n

def readerThread (n : Nat) : Call F Unit :=
  ((readLoop n).tryCatch fun e =>
    if e.kind = .value ∨ e.kind = .os then .ret () else .raise e).ensuring (perform (.put none))

variable [FloatArith F] (E : Env F) (B : Builtins F) (host : Host) (A : Args F) (patience : Nat)

def mainLoop : (n : Nat) → Local F → Call F Unit
  | 0, _ => .raise ⟨.cutShort, ""⟩
  | n + 1, L => do
    match ← perform .get with
    | none => return ()
    | some msg => do
      match ← (serve E B host A patience L msg).lift (turns F) with
      | none => return ()
      | some L => mainLoop n L

end Threads

/-! ## The process -/

/-- The queue and the flag between the threads, the command that is running, what is still to be
read and what was sent. -/
structure State (F : Type) where
  stdin : List (Input F)
  queue : List (Option (Dict String (Json F)))
  cancelled : Bool
  active : Option Nat
  sent : List (Dict String (Json F))

/-- The clock, whether an operation fails, and what the operating system answers. -/
structure World (F : Type) where
  time : F
  failure : Option Error
  flag : Bool
  pid : Nat
  code : Option Int
  finished : Finished
  path : String

section Run

variable {F : Type}

/-- No operation fails as only a loop that is cut short does. -/
def World.Real (w : World F) : Prop := ∀ e, w.failure = some e → e.kind ≠ .cutShort

theorem real_iff (w : World F) : (w.failure.all fun e => e.kind ≠ .cutShort) = true ↔ w.Real := by
  simp [World.Real, Option.all_eq_true]

/-- The operations of a turn that may fail do so when `failure` says it. -/
def attempt {α : Type} (w : World F) (s : State F) (a : α) : Except Error α × State F :=
  match w.failure with
  | some e => (.error e, s)
  | none => (.ok a, s)

def exec : (o : Op F) → World F → State F → Except Error o.Ret × State F
  | .readline, w, s =>
    match w.failure, s.stdin with
    | some e, _ => (.error e, s)
    | none, [] => (.ok none, s)
    | none, input :: rest => (.ok (some input), { s with stdin := rest })
  | .put msg, _, s => (.ok (), { s with queue := s.queue ++ [msg] })
  | .get, _, s => (.ok (s.queue.head?.getD none), { s with queue := s.queue.tail })
  | .own .now, w, s => (.ok w.time, s)
  | .own .isCancelled, _, s => (.ok s.cancelled, s)
  | .own .setCancel, _, s => (.ok (), { s with cancelled := true })
  | .own .clearCancel, _, s => (.ok (), { s with cancelled := false })
  | .own (.waitCancelled _), _, s => (.ok s.cancelled, s)
  | .own (.setActive pid), _, s => (.ok (), { s with active := pid })
  | .own .sleep, _, s => (.ok (), s)
  | .own (.sendEvent event), _, s => (.ok (), { s with sent := s.sent ++ [event] })
  | .own .terminateActive, w, s => if s.active.isSome then attempt w s () else (.ok (), s)
  | .own (.isDir _), w, s => attempt w s w.flag
  | .own (.popen _ _), w, s => attempt w s w.pid
  | .own (.poll _), w, s => attempt w s w.code
  | .own (.terminate _), w, s => attempt w s ()
  | .own (.wait _), w, s => attempt w s ()
  | .own (.kill _), w, s => attempt w s ()
  | .own (.communicate _), w, s => attempt w s w.finished
  | .own (.writeFile _ _ _), w, s => attempt w s w.path

def possible (o : Op F) (_ : World F) (s : State F) : Bool :=
  match o with
  | .get => !s.queue.isEmpty
  | _ => true

end Run

inductive Thread (F : Type)
  | main (L : Local F) (n : Nat)
  | reader (n : Nat)

section Machine

variable {F : Type} [FloatArith F] (E : Env F) (B : Builtins F) (host : Host) (A : Args F)
variable (patience : Nat)

def body : Thread F → Call F Unit
  | .main L n => mainLoop E B host A patience n L
  | .reader n => readerThread n

def machine : Machine where
  sig := sig F
  Err := Error
  Res := Unit
  Request := Thread F
  State := State F
  World := World F
  possible := possible
  exec := exec
  body := body E B host A patience

/-- Both threads of a worker whose input will be `inputs`, before their first operations; `rounds`
bounds how often each loop goes round. -/
def launched (rounds : Nat) (L : Local F) (inputs : List (Input F)) :
    (machine E B host A patience).Config where
  state := ⟨inputs, [], false, none, []⟩
  calls := [.main L rounds, .reader rounds].map fun q => ⟨q, body E B host A patience q, []⟩

def Real (_ : (machine E B host A patience).Config) : (machine E B host A patience).Label → Prop
  | .start _ => False
  | .act _ w => World.Real w

instance (c : (machine E B host A patience).Config) (l : (machine E B host A patience).Label) :
    Decidable (Real E B host A patience c l) :=
  match l with
  | .start _ => inferInstanceAs (Decidable False)
  | .act _ w => decidable_of_iff _ (real_iff w)

end Machine

end SubagentBridge.WorkerThreads
