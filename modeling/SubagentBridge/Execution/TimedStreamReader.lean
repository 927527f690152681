import SubagentBridge.Library.Runs
import Mathlib.Algebra.Group.Defs
import Mathlib.Data.List.Basic
import Mathlib.Order.Lattice

/-! The line reader of a worker process: a thread moves lines from the stream to a queue, and
any number of threads take lines from there, one at a time. -/

namespace SubagentBridge.Execution.TimedStreamReader

open Library

variable {F α : Type}

inductive Request (F α : Type)
  | readline (timeout : F)
  | readlineMatching (predicate : α → Bool) (timeout : F)

inductive Stage (F α : Type)
  | entering
  | reading
  | getting (limit : F)
  | scanning (unmatched : List α)
  | fetching (unmatched : List α)
  | leaving (unmatched : List α) (result : Option α)
  | failing
  | returned (result : Option α)
  | raised

structure Call (F α : Type) where
  request : Request F α
  started : F
  stage : Stage F α

/-- The lines that the stream still yields, the queue that the thread fills, which ends with a
`None` when the stream does, and the lines that were put back. -/
structure Lines (α : Type) where
  stream : List α
  queue : List (Option α)
  pending : List α

structure Reader (F α : Type) where
  lines : Lines α
  closed : Bool
  ended : Bool
  holder : Option Nat
  calls : List (Call F α)
  clock : F

inductive Label (F α : Type)
  | write : α → Label F α
  | close
  | feed
  | start : Request F α → F → Label F α
  | act : Nat → F → Label F α

def initial (clock : F) : Reader F α := ⟨⟨[], [], []⟩, false, false, none, [], clock⟩

/-- One turn of `_reader`. -/
def feed (s : Reader F α) : Option (Reader F α) :=
  match s.lines.stream with
  | line :: stream =>
    some { s with lines := { s.lines with stream, queue := s.lines.queue ++ [some line] } }
  | [] =>
    if s.closed = true ∧ s.ended = false then
      some { s with ended := true, lines := { s.lines with queue := s.lines.queue ++ [none] } }
    else none

/-- What `readline_matching` does with a line. -/
def judge (predicate : α → Bool) (unmatched : List α) (line : α) : Stage F α :=
  if predicate line then .leaving unmatched (some line) else .scanning (unmatched ++ [line])

section Steps

variable [LinearOrder F] [Add F] [Zero F]

/-- `time.monotonic() + max(0.0, timeout)` -/
def deadline (started timeout : F) : F := started + max 0 timeout

/-- What a call does next while it holds the lock. -/
def advance (now started : F) :
    Request F α → Stage F α → Lines α → Option (Stage F α × Lines α)
  | .readline timeout, .reading, l => match l.pending with
    | line :: pending => some (.leaving [] (some line), { l with pending })
    | [] => if timeout < 0 then some (.failing, l) else some (.getting (now + timeout), l)
  | .readline _, .getting limit, l => match l.queue with
    | item :: queue => some (.leaving [] item, { l with queue })
    | [] => if limit ≤ now then some (.leaving [] none, l) else none
  | .readlineMatching predicate timeout, .scanning unmatched, l => match l.pending with
    | line :: pending => some (judge predicate unmatched line, { l with pending })
    | [] =>
      if deadline started timeout ≤ now then some (.leaving unmatched none, l)
      else some (.fetching unmatched, l)
  | .readlineMatching predicate timeout, .fetching unmatched, l => match l.queue with
    | some line :: queue => some (judge predicate unmatched line, { l with queue })
    | none :: queue => some (.leaving unmatched none, { l with queue })
    | [] =>
      if deadline started timeout ≤ now then some (.leaving unmatched none, l) else none
  | _, _, _ => none

def entered : Request F α → Stage F α
  | .readline _ => .reading
  | .readlineMatching _ _ => .scanning []

def Reader.setStage (s : Reader F α) (i : Nat) (c : Call F α) (stage : Stage F α) : Reader F α :=
  { s with calls := s.calls.set i { c with stage } }

def act (s : Reader F α) (i : Nat) (c : Call F α) : Option (Reader F α) :=
  match c.stage with
  | .entering =>
    if s.holder = none then some { s.setStage i c (entered c.request) with holder := some i }
    else none
  -- the `finally` block, and the end of the `with`
  | .leaving unmatched result => some { s.setStage i c (.returned result) with
      holder := none
      lines := { s.lines with pending := unmatched ++ s.lines.pending } }
  | .failing => some { s.setStage i c .raised with holder := none }
  | .returned _ | .raised => none
  | stage => (advance s.clock c.started c.request stage s.lines).map fun (stage, lines) =>
      { s.setStage i c stage with lines }

def step (s : Reader F α) : Label F α → Option (Reader F α)
  | .write line =>
    if s.closed then none else
      some { s with lines := { s.lines with stream := s.lines.stream ++ [line] } }
  | .close => some { s with closed := true }
  | .feed => feed s
  | .start request now =>
    if s.clock ≤ now then
      some { s with calls := s.calls ++ [⟨request, now, .entering⟩], clock := now }
    else none
  | .act i now =>
    if s.clock ≤ now then (s.calls[i]?).bind (act { s with clock := now } i) else none

/-- A call that looks for a line gives up before it looks into the queue, where the line is. -/
def late (s : Reader F α) : Label F α → Bool
  | .act i now => match s.calls[i]? with
    | some ⟨.readlineMatching predicate timeout, started, .scanning _⟩ =>
      s.lines.pending.isEmpty && decide (deadline started timeout ≤ now) &&
        s.lines.queue.any (·.any predicate)
    | _ => false
  | _ => false

end Steps

/-! ## What is left and what was taken -/

def Stage.unmatched : Stage F α → List α
  | .scanning unmatched | .fetching unmatched | .leaving unmatched _ => unmatched
  | _ => []

def Stage.result : Stage F α → Option (Option α)
  | .leaving _ result | .returned result => some result
  | _ => none

def Stage.inside : Stage F α → Bool
  | .entering | .returned _ | .raised => false
  | _ => true

def Lines.all (l : Lines α) : List α := l.pending ++ l.queue.reduceOption ++ l.stream

def Lines.ready (l : Lines α) : List α := l.pending ++ l.queue.reduceOption

def available (s : Reader F α) : List α :=
  ((s.holder.bind (s.calls[·]?)).map (·.stage.unmatched)).getD [] ++ s.lines.ready

/-- The lines that nobody has been given, in order: the ones in the hands of the thread that holds
the lock come first. -/
def remaining (s : Reader F α) : List α :=
  ((s.holder.bind (s.calls[·]?)).map (·.stage.unmatched)).getD [] ++ s.lines.all

def returned (s : Reader F α) : List α := s.calls.filterMap (·.stage.result.join)

def Stage.done : Stage F α → Bool
  | .returned _ | .raised => true
  | _ => false

def Idle (s : Reader F α) : Prop := ∀ c ∈ s.calls, c.stage.done = true

def Label.plain : Label F α → Bool
  | .start (.readlineMatching _ _) _ => false
  | _ => true

def Ordinary (s : Reader F α) : Prop :=
  ∀ c ∈ s.calls, ∀ predicate timeout, c.request = .readlineMatching predicate timeout →
    c.stage.done = true

def writes : Label F α → List α
  | .write line => [line]
  | _ => []

def written (ls : List (Label F α)) : List α := ls.flatMap writes

end SubagentBridge.Execution.TimedStreamReader
