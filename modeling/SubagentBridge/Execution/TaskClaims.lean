import SubagentBridge.Execution.WorkerProcesses

/-! What each call does about the process of its worker and the claim on it, whatever the
answers are. -/

namespace SubagentBridge.WorkerProcess

open Library Domain

inductive Role
  | send (workerId taskId : String)
  | collect (workerId taskId : String)
  | switch (workerId : String)
  | spawn (workerId : String)
  | finish (workerId : Option String)
  | other
  deriving DecidableEq

def Request.role {F : Type} : Request F → Role
  | .dispatchTaskToWorker workerId taskId _ _ | .sendTaskAsync workerId taskId _ =>
    .send workerId taskId
  | .collectAsyncResult workerId taskId => .collect workerId taskId
  | .switchWorkerHarness workerId _ _ _ _ _ => .switch workerId
  | .spawnWorker config _ => .spawn config.workerId
  | .terminateWorker workerId => .finish (some workerId)
  | .terminateAll | .reapDeadWorkers => .finish none
  | _ => .other

def Role.concerns : Role → String → Prop
  | .send w _, w' | .collect w _, w' | .switch w, w' | .spawn w, w' | .finish (some w), w' => w = w'
  | .finish none, _ => True
  | .other, _ => False

def Role.replaces : Role → Bool
  | .spawn _ | .finish _ => true
  | _ => false

def Role.Conflicts (r r' : Role) : Prop :=
  (r.replaces = true ∨ r'.replaces = true) ∧ ∃ w, r.concerns w ∧ r'.concerns w

/-- The worker that a call is about, if it is about one; `some none` is any worker. -/
def Role.subject : Role → Option (Option String)
  | .send w _ | .collect w _ | .switch w | .spawn w => some (some w)
  | .finish w => some w
  | .other => .none

theorem Role.concerns_iff (r : Role) (w : String) :
    r.concerns w ↔ r.subject = some .none ∨ r.subject = some (some w) := by
  cases r with
  | finish w' => cases w' <;> simp [concerns, subject]
  | send | collect | switch | spawn | other => simp [concerns, subject]

instance (r r' : Role) : Decidable (r.Conflicts r') :=
  decidable_of_iff ((r.replaces = true ∨ r'.replaces = true) ∧ r.subject ≠ .none ∧
      r'.subject ≠ .none ∧ (r.subject = some .none ∨ r'.subject = some .none ∨
        r.subject = r'.subject)) (by
    rw [Role.Conflicts]
    refine and_congr_right fun _ => ?_
    simp only [Role.concerns_iff]
    rcases r.subject with - | - | w <;> rcases r'.subject with - | - | w' <;> simp [eq_comm])

inductive Claim
  | none
  | vacant
  | held
  /-- held, and the pipe has refused the line -/
  | refused
  | sent
  | taken
  deriving DecidableEq

structure Mode where
  role : Role
  target : Option (Option Nat)
  polled : Option Bool
  reader : Option (Option Nat)
  started : Option Nat
  hasReader : Bool
  entered : Bool
  closed : Bool
  dropped : List String
  wrote : Option Nat
  inLock : Bool
  claim : Claim

def Mode.initial (role : Role) : Mode :=
  ⟨role, .none, .none, .none, .none, false, false, false, [], .none, false, .none⟩

def Mode.leave (m : Mode) : Mode :=
  { m with inLock := false, claim := if m.claim = .vacant then .none else m.claim }

section Protocol

variable {F : Type}

def Mode.next (m : Mode) : (o : Op F) → Except Error o.Ret → Mode
  | .lock, .ok _ => { m with inLock := true }
  | .unlock, .ok _ => m.leave
  | .processOf _, .ok proc => { m with target := some proc, polled := .none, closed := false }
  | .readerOf _, .ok reader => { m with reader := some (m.reader.join.or reader), polled := .none }
  | .poll n, .ok code =>
    if m.target = some (some n) then { m with polled := some code.isSome } else m
  | .isBusy _, .ok busy =>
    if m.inLock = true ∧ m.claim = .none then { m with claim := if busy then .none else .vacant }
    else m
  | .addBusy _, .ok _ => { m with claim := .held }
  | .discardBusy _, .ok _ => { m with claim := .none }
  | .write n (.task _ _), .ok _ => { m with wrote := some n, claim := .sent }
  | .write _ (.task _ _), .error _ => { m with claim := .refused }
  | .readlineMatching _ (.result _), .ok (some _) => { m with claim := .taken }
  | .popen _ _, .ok n => { m with started := some n }
  | .setReader _ _, .ok _ => { m with hasReader := true }
  | .setProcess _ _, .ok _ => { m with entered := true }
  | .closePipes n, .ok _ => if m.target = some (some n) then { m with closed := true } else m
  | .dropProcess workerId, .ok _ => { m with dropped := workerId :: m.dropped }
  | _, _ => m

def Mode.Allows (m : Mode) : Op F → Prop
  | .lock => m.inLock = false ∧ ((∃ w, m.role = .switch w) → m.target = .none ∧ m.dropped = [])
  | .unlock => m.inLock = true
  | .addBusy w => (∃ t, m.role = .send w t) ∧ m.inLock = true ∧ m.claim = .vacant
  | .discardBusy w => match m.role with
    | .send w' _ | .collect w' _ => w = w' ∧ (m.claim = .refused ∨ m.claim = .taken)
    | .switch w' => w = w' ∧ m.inLock = true ∧ m.claim = .vacant
    | .spawn w' => w = w' ∧ m.entered = true
    | .finish _ => w ∈ m.dropped ∧ m.role.concerns w
    | .other => False
  | .isBusy w => m.inLock = true → m.role.concerns w
  | .write n (.task t _) => (∃ w, m.role = .send w t) ∧ m.claim = .held ∧
      m.target = some (some n) ∧ m.wrote = .none
  | .readlineMatching n (.result t) => m.reader = some (some n) ∧ m.polled = some false ∧
      ∃ n', m.target = some (some n') ∧
        ((∃ w, m.role = .send w t) ∧ m.claim = .sent ∧ m.wrote = some n' ∨
          (∃ w, m.role = .collect w t) ∧ m.claim = .none)
  | .readlineMatching _ (.control eventType _) => eventType ≠ "RESULT"
  | .readline n => (∃ w, m.role = .spawn w) ∧ m.started = some n
  | .popen argv _ => ∃ w, m.role = .spawn w ∧ argv[4]? = some w ∧ m.started = .none ∧
      m.hasReader = false ∧ m.entered = false ∧
      (m.target = some .none ∨ (∃ n, m.target = some (some n)) ∧ m.polled = some true)
  | .setReader w n => m.role = .spawn w ∧ m.started = some n ∧ m.entered = false
  | .setProcess w n => m.role = .spawn w ∧ m.started = some n ∧ m.hasReader = true
  | .dropProcess w => m.role.concerns w ∧ ((∃ w', m.role = .finish w') ∨
      m.role = .switch w ∧ m.inLock = true ∧ m.claim = .vacant ∧
        ∃ proc, m.target = some proc ∧ (proc = .none ∨ m.closed = true))
  | .dropReader w => m.role.concerns w ∧ w ∈ m.dropped ∧
      ((∃ w', m.role = .finish w') ∨ m.role = .switch w ∧ m.inLock = true)
  | .processOf w | .readerOf w =>
    m.role.concerns w ∨ (∃ w', m.role = .finish w') ∨ m.role = .other
  | _ => True

def Answers (o : Op F) (r : Except Error o.Ret) : Prop :=
  match o with
  | .unlock => ∃ a, r = .ok a
  | _ => True

variable (F) in
abbrev discipline : Protocol (sig F) Error := ⟨Mode, Mode.Allows, Answers, Mode.next⟩

def Op.quiet : Op F → Bool
  | .lock | .unlock | .processOf _ | .readerOf _ | .poll _ | .isBusy _ | .addBusy _
  | .discardBusy _ | .write _ (.task _ _) | .readlineMatching _ (.result _) | .readline _
  | .popen _ _ | .setReader _ _ | .setProcess _ _ | .closePipes _ | .dropProcess _
  | .dropReader _ => false
  | .readlineMatching _ (.control eventType _) => eventType ≠ "RESULT"
  | _ => true

abbrev Quiet (o : Op F) : Prop := o.quiet = true

variable {m : Mode} {o : Op F} {r : Except Error o.Ret} {α β : Type}
variable {Q : Mode → Except Error β → Prop}

theorem allows_quiet (ho : Quiet o) : m.Allows o := by
  cases o <;> first | trivial | cases ho | skip
  next n message => cases message <;> first | trivial
  next n awaited =>
    cases awaited <;> first | trivial | cases ho | simpa [Quiet, Op.quiet, Mode.Allows] using ho

theorem next_quiet (ho : Quiet o) : m.next o r = m := by
  cases o <;> first | (cases r <;> rfl) | cases ho | skip
  next n message => cases message <;> first | (cases r <;> rfl) | cases ho
  next n awaited => cases awaited <;> first | (cases r <;> rfl) | cases ho

theorem role_next (m : Mode) (o : Op F) (r : Except Error o.Ret) : (m.next o r).role = m.role := by
  unfold Mode.next
  split <;> first | rfl | (split <;> rfl)

/-! ## Rules -/

theorem follows_perform {f : o.Ret → Call F β} (ho : m.Allows o)
    (hok : ∀ a, Answers o (.ok a) → (f a).Follows (discipline F) Q (m.next o (.ok a)))
    (herr : ∀ e, Answers o (.error e) → Q (m.next o (.error e)) (.error e)) :
    ((perform o).bind f).Follows (discipline F) Q m :=
  (Proc.follows_op_bind ..).mpr ⟨ho, hok, herr⟩

theorem follows_last {Q : Mode → Except Error o.Ret → Prop} (ho : m.Allows o)
    (h : ∀ r, Answers o r → Q (m.next o r) r) : (perform o).Follows (discipline F) Q m := by
  refine ⟨ho, ?_⟩
  rintro (e | a) hr
  · exact h (.error e) hr
  · exact h (.ok a) hr

theorem follows_quiet {f : o.Ret → Call F β} (ho : Quiet o)
    (hok : ∀ a, (f a).Follows (discipline F) Q m) (herr : ∀ e, Q m (.error e)) :
    ((perform o).bind f).Follows (discipline F) Q m := by
  refine follows_perform (allows_quiet ho) (fun a _ => ?_) fun e _ => ?_
  · rw [next_quiet ho]
    exact hok a
  · rw [next_quiet ho]
    exact herr e

theorem Quiet.follows {p : Call F α} (hp : p.Only Quiet) :
    p.Follows (discipline F) (fun m' _ => m' = m) m := by
  refine Proc.Only.follows (P := discipline F) (I := fun m' => m' = m) hp rfl ?_
  rintro m' o rfl ho
  exact ⟨allows_quiet ho, fun r _ => next_quiet ho⟩

theorem Quiet.follows_bind {p : Call F α} {f : α → Call F β} (hp : p.Only Quiet)
    (hok : ∀ a, (f a).Follows (discipline F) Q m) (herr : ∀ e, Q m (.error e)) :
    (p.bind f).Follows (discipline F) Q m := by
  apply (Quiet.follows hp (m := m)).bind
  · rintro m' a rfl
    exact hok a
  · rintro m' e rfl
    exact herr e

def Unlocked (m : Mode) (_ : Except Error α) : Prop := m.inLock = false

theorem Quiet.unlocked {p : Call F α} (hp : p.Only Quiet) (hm : m.inLock = false) :
    p.Follows (discipline F) Unlocked m := by
  apply (Quiet.follows hp (m := m)).mono
  rintro m' r rfl
  exact hm

theorem follows_locked {body : Call F α} {Q M : Mode → Except Error α → Prop}
    (hm : m.inLock = false)
    (hswitch : (∃ w, m.role = .switch w) → m.target = .none ∧ m.dropped = [])
    (hbody : body.Follows (discipline F) M { m with inLock := true })
    (hM : ∀ m' r, M m' r → m'.inLock = true ∧ Q m'.leave r) (herr : ∀ e, Q m (.error e)) :
    (locked body).Follows (discipline F) Q m := by
  refine follows_perform ⟨hm, hswitch⟩ (fun _ _ => ?_) fun e _ => herr e
  apply Proc.Follows.ensuring hbody
  intro m' r hr
  obtain ⟨hlock, hQ⟩ := hM m' r hr
  apply follows_last (o := .unlock) hlock
  rintro r' ⟨a, rfl⟩
  cases r <;> exact hQ

end Protocol

/-! ## Looking at processes and sessions -/

section Looking

variable {F : Type} {m : Mode} {workerId : String} {α β : Type}

theorem quiet_perform {o : Op F} (ho : Quiet o) : (perform o).Only Quiet :=
  (Proc.only_op (S := sig F) o).mpr ho

theorem quiet_bind {o : Op F} {f : o.Ret → Call F α} (ho : Quiet o) (hf : ∀ a, (f a).Only Quiet) :
    ((perform o).bind f).Only Quiet :=
  Proc.only_op_bind (S := sig F) ho hf

theorem quiet_onObject {f : Nat → Call F Unit} (hf : ∀ r, (f r).Only Quiet) (r : Option Nat) :
    (onObject f r).Only Quiet := by
  cases r with
  | none => trivial
  | some r => exact hf r

theorem quiet_updateSession (f : AgentSession F → AgentSession F) :
    (updateSession workerId f).Only Quiet := by
  apply quiet_bind (by rfl)
  intro session
  cases session with
  | none => trivial
  | some session => exact quiet_bind (by rfl) fun _ => quiet_perform (by rfl)

def Asked (m : Mode) (proc : Option Nat) : Mode → Except Error (Option Nat) → Prop
  | m', .ok (some n) => proc = some n ∧ m' = { m with polled := some false }
  | m', .ok none =>
    proc = none ∧ m' = m ∨ (∃ n, proc = some n) ∧ m' = { m with polled := some true }
  | m', .error _ => m' = m

theorem follows_running (proc : Option Nat) (hm : m.target = some proc) :
    (running (F := F) proc).Follows (discipline F) (Asked m proc) m := by
  cases proc with
  | none => exact .inl ⟨rfl, rfl⟩
  | some n =>
    refine follows_perform trivial (fun code _ => ?_) fun e _ => rfl
    rw [Mode.next, if_pos hm]
    cases code with
    | none => exact ⟨rfl, rfl⟩
    | some code => exact .inr ⟨⟨n, rfl⟩, rfl⟩

def Op.looks (role : Role) (o : Op F) : Prop :=
  Quiet o ∨ match o with
    | .processOf w | .readerOf w => role.concerns w ∨ role = .other
    | .poll _ => True
    | .isBusy _ => role = .other
    | _ => False

structure Mode.Steady (m m' : Mode) : Prop where
  role : m'.role = m.role
  inLock : m'.inLock = m.inLock
  claim : m'.claim = m.claim

theorem Mode.Steady.trans {m m' m'' : Mode} (h : m.Steady m') (h' : m'.Steady m'') :
    m.Steady m'' :=
  ⟨h'.role.trans h.role, h'.inLock.trans h.inLock, h'.claim.trans h.claim⟩

theorem steady_next {o : Op F} (ho : o.looks m.role) (hm : m.role = .other → m.inLock = false)
    (r : Except Error o.Ret) : m.Steady (m.next o r) := by
  obtain hq | hl := ho
  · rw [next_quiet hq]
    exact ⟨rfl, rfl, rfl⟩
  cases o <;> try exact hl.elim
  case processOf => cases r <;> exact ⟨rfl, rfl, rfl⟩
  case readerOf => cases r <;> exact ⟨rfl, rfl, rfl⟩
  case poll =>
    cases r with
    | error e => exact ⟨rfl, rfl, rfl⟩
    | ok code =>
      simp only [Mode.next]
      split <;> exact ⟨rfl, rfl, rfl⟩
  case isBusy =>
    cases r with
    | error e => exact ⟨rfl, rfl, rfl⟩
    | ok busy =>
      rw [Mode.next, if_neg (by simp [hm hl])]
      exact ⟨rfl, rfl, rfl⟩

theorem follows_looking {p : Call F α} (hp : p.Only (Op.looks m.role))
    (hm : m.role = .other → m.inLock = false) :
    p.Follows (discipline F) (fun m' _ => m.Steady m') m := by
  refine Proc.Only.follows (P := discipline F) (I := m.Steady) hp ⟨rfl, rfl, rfl⟩ ?_
  intro m' o hs ho
  rw [← hs.role] at ho
  have hm' : m'.role = .other → m'.inLock = false := fun h =>
    hs.inLock.trans (hm (hs.role.symm.trans h))
  refine ⟨?_, fun r _ => hs.trans (steady_next ho hm' r)⟩
  obtain hq | hl := ho
  · exact allows_quiet hq
  cases o <;> try exact hl.elim
  case processOf => exact hl.imp_right .inr
  case readerOf => exact hl.imp_right .inr
  case poll => trivial
  case isBusy =>
    intro hlock
    rw [hm' hl] at hlock
    cases hlock

variable {role : Role}

theorem looks_perform {o : Op F} (ho : o.looks role) : (perform o).Only (Op.looks role) :=
  (Proc.only_op (S := sig F) o).mpr ho

theorem looks_bind {o : Op F} {f : o.Ret → Call F α} (ho : o.looks role)
    (hf : ∀ a, (f a).Only (Op.looks role)) : ((perform o).bind f).Only (Op.looks role) :=
  Proc.only_op_bind (S := sig F) ho hf

theorem looks_of_quiet {p : Call F α} (hp : p.Only Quiet) : p.Only (Op.looks role) :=
  hp.mono fun _ => .inl

theorem looks_running (proc : Option Nat) : (running (F := F) proc).Only (Op.looks role) := by
  cases proc with
  | none => trivial
  | some n => exact looks_bind (.inr trivial) fun _ => trivial

theorem looks_isWorkerAlive (workerId : String) (hr : role.concerns workerId ∨ role = .other) :
    (isWorkerAlive (F := F) workerId).Only (Op.looks role) := by
  apply looks_bind (.inr hr)
  intro proc
  apply looks_bind (.inl rfl)
  intro record
  apply (looks_running proc).bind
  intro live
  apply looks_of_quiet
  cases live with
  | some n => cases record with
    | some r =>
      apply quiet_bind (by rfl)
      intro pid
      exact quiet_bind (by rfl) fun _ => quiet_perform (by rfl)
    | none => exact quiet_bind (by rfl) fun _ => quiet_perform (by rfl)
  | none => cases record with
    | some r => exact quiet_bind (by rfl) fun _ => quiet_perform (by rfl)
    | none =>
      apply quiet_bind (by rfl)
      intro session
      cases session with
      | none => trivial
      | some session =>
        simp only
        split
        next => trivial
        next => exact quiet_perform (by rfl)

end Looking

end SubagentBridge.WorkerProcess
