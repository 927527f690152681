import SubagentBridge.Library.Proc

/-! Calls running concurrently on one shared state.  Every operation is atomic;
any call may be preempted between two of its operations, for any time. -/

namespace Library

/-- A component: its operations on a shared state, and the procedure run for each
request.  The `World` of a step carries what the environment answers at that
moment (clock, randomness, other processes); `possible` rules out the worlds the
environment never shows in a given state. -/
structure Machine where
  sig : Signature
  Err : Type
  Res : Type
  Request : Type
  State : Type
  World : Type
  possible : sig.Op → World → State → Bool
  exec : (o : sig.Op) → World → State → Except Err (sig.Ret o) × State
  body : Request → Proc sig Err Res

namespace Machine

variable (M : Machine)

/-- A call in progress: what was asked, what is left to do, what happened so far. -/
structure Activity where
  request : M.Request
  proc : Proc M.sig M.Err M.Res
  hist : List (Event M.sig M.Err)

structure Config where
  state : M.State
  calls : List M.Activity

inductive Label
  | start : M.Request → Label
  | act : Nat → M.World → Label

def initial (s : M.State) : M.Config := ⟨s, []⟩

variable {M}

/-- One step: a new call arrives, or call `i` performs its next operation. -/
def step (c : M.Config) : M.Label → Option M.Config
  | .start q => some { c with calls := c.calls ++ [⟨q, M.body q, []⟩] }
  | .act i w =>
    match c.calls[i]? with
    | some ⟨q, .call o k, h⟩ =>
      if M.possible o w c.state then
        let (r, s) := M.exec o w c.state
        some ⟨s, c.calls.set i ⟨q, k r, h ++ [⟨o, r⟩]⟩⟩
      else none
    | _ => none

structure Acts (c : M.Config) (i : Nat) (w : M.World) (c' : M.Config)
    (q : M.Request) (o : M.sig.Op) (k : Except M.Err (M.sig.Ret o) → Proc M.sig M.Err M.Res)
    (h : List (Event M.sig M.Err)) : Prop where
  call : c.calls[i]? = some ⟨q, .call o k, h⟩
  possible : M.possible o w c.state
  result : c' = ⟨(M.exec o w c.state).2, c.calls.set i
    ⟨q, k (M.exec o w c.state).1, h ++ [⟨o, (M.exec o w c.state).1⟩]⟩⟩

theorem step_act {c c' : M.Config} {i : Nat} {w : M.World}
    (hs : step c (.act i w) = some c') : ∃ q o k h, Acts c i w c' q o k h := by
  simp only [step] at hs
  split at hs
  next q o k h hc =>
    split at hs
    next hp => exact ⟨q, o, k, h, hc, hp, (Option.some.inj hs).symm⟩
    next => cases hs
  next => cases hs

theorem Acts.isStep {c c' : M.Config} {i : Nat} {w : M.World} {q : M.Request} {o : M.sig.Op}
    {k : Except M.Err (M.sig.Ret o) → Proc M.sig M.Err M.Res} {h : List (Event M.sig M.Err)}
    (ha : Acts c i w c' q o k h) : step c (.act i w) = some c' := by
  simp only [Machine.step, ha.call, ha.possible, if_true, ha.result]

theorem Acts.call_after {c c' : M.Config} {i : Nat} {w : M.World} {q : M.Request} {o : M.sig.Op}
    {k : Except M.Err (M.sig.Ret o) → Proc M.sig M.Err M.Res} {h : List (Event M.sig M.Err)}
    (ha : Acts c i w c' q o k h) : c'.calls[i]? = some
      ⟨q, k (M.exec o w c.state).1, h ++ [⟨o, (M.exec o w c.state).1⟩]⟩ := by
  rw [ha.result]
  exact List.getElem?_set_self (List.getElem?_eq_some_iff.mp ha.call).1

theorem step_start {c c' : M.Config} {q : M.Request} (hs : step c (.start q) = some c') :
    c' = { c with calls := c.calls ++ [⟨q, M.body q, []⟩] } := (Option.some.inj hs).symm

theorem call_step {c c' : M.Config} {l : M.Label} (hs : step c l = some c') {i : Nat}
    {a : M.Activity} (ha : c'.calls[i]? = some a) :
    c.calls[i]? = some a ∨ (∃ q, l = .start q ∧ a = ⟨q, M.body q, []⟩) ∨
      ∃ w q o k h, l = .act i w ∧ Acts c i w c' q o k h ∧
        a = ⟨q, k (M.exec o w c.state).1, h ++ [⟨o, (M.exec o w c.state).1⟩]⟩ := by
  cases l with
  | start q =>
    rw [step_start hs, List.getElem?_append] at ha
    split at ha
    next => exact .inl ha
    next => exact .inr (.inl ⟨q, rfl, List.mem_singleton.mp (List.mem_of_getElem? ha)⟩)
  | act j w =>
    obtain ⟨q, o, k, h, hact⟩ := step_act hs
    rw [hact.result] at ha
    by_cases hij : j = i
    · subst hij
      have hlt := (List.getElem?_eq_some_iff.mp hact.call).1
      rw [List.getElem?_set_self hlt] at ha
      exact .inr (.inr ⟨w, q, o, k, h, rfl, hact, (Option.some.inj ha).symm⟩)
    · rw [List.getElem?_set_ne hij] at ha
      exact .inl ha

theorem call_of_run {G : M.Config → M.Label → Prop} {c₁ c₂ : M.Config} {ls : List M.Label}
    (hrun : Path step G c₁ ls c₂) {i : Nat} {a : M.Activity} (ha : c₁.calls[i]? = some a) :
    ∃ a' h', c₂.calls[i]? = some a' ∧ a'.request = a.request ∧ a'.hist = a.hist ++ h' := by
  induction hrun with
  | refl => exact ⟨a, [], ha, rfl, by simp⟩
  | @tail c c' ls l hp hG hs ih =>
    obtain ⟨a', h', ha', hq, hh⟩ := ih
    cases l with
    | start q =>
      rw [step_start hs]
      exact ⟨a', h', List.getElem?_append_left (List.getElem?_eq_some_iff.mp ha').1 ▸ ha', hq, hh⟩
    | act j w =>
      obtain ⟨q, o, k, h, hact⟩ := step_act hs
      rw [hact.result]
      by_cases hij : j = i
      · subst hij
        obtain rfl := Option.some.inj (ha'.symm.trans hact.call)
        refine ⟨_, h' ++ [⟨o, (M.exec o w c.state).1⟩],
          List.getElem?_set_self (List.getElem?_eq_some_iff.mp ha').1, hq, ?_⟩
        rw [← List.append_assoc, ← hh]
      · exact ⟨a', h', (List.getElem?_set_ne hij).trans ha', hq, hh⟩

theorem Acts.recorded {G : M.Config → M.Label → Prop} {c c' c₂ : M.Config} {ls : List M.Label}
    {i : Nat} {w : M.World} {q : M.Request} {o : M.sig.Op}
    {k : Except M.Err (M.sig.Ret o) → Proc M.sig M.Err M.Res} {h : List (Event M.sig M.Err)}
    (hact : Acts c i w c' q o k h) (h₂ : Path step G c' ls c₂) {a : M.Activity}
    (ha : c₂.calls[i]? = some a) :
    a.request = q ∧ ⟨o, (M.exec o w c.state).1⟩ ∈ a.hist := by
  obtain ⟨a', h', ha', hq, hh⟩ := call_of_run h₂ hact.call_after
  obtain rfl := Option.some.inj (ha.symm.trans ha')
  exact ⟨hq, by rw [hh]; simp⟩

/-- In the run `ls` from `s₀` to `c`, call `i` performs the event `e`: the operation takes
`c₁` to `c₂`, and `h` is what the call did before. -/
structure Performs (s₀ : M.State) (ls : List M.Label) (c : M.Config) (i : Nat) (q : M.Request)
    (h : List (Event M.sig M.Err)) (e : Event M.sig M.Err) (ls₁ : List M.Label) (w : M.World)
    (c₁ c₂ : M.Config) : Prop where
  split : ∃ ls₂, ls = ls₁ ++ .act i w :: ls₂ ∧ Run step c₂ ls₂ c
  before : Run step (M.initial s₀) ls₁ c₁
  acts : ∃ k, Acts c₁ i w c₂ q e.op k h
  answer : (M.exec e.op w c₁.state).1 = e.ans

theorem Performs.recorded {s₀ : M.State} {ls : List M.Label} {c : M.Config} {i : Nat}
    {q : M.Request} {h : List (Event M.sig M.Err)} {e : Event M.sig M.Err} {ls₁ : List M.Label}
    {w : M.World} {c₁ c₂ : M.Config} (hper : Performs s₀ ls c i q h e ls₁ w c₁ c₂)
    {a : M.Activity} (ha : c.calls[i]? = some a) : ∃ h', a.hist = h ++ e :: h' := by
  obtain ⟨ls₂, -, h₂⟩ := hper.split
  obtain ⟨k, hact⟩ := hper.acts
  obtain ⟨a', h', ha', -, hh⟩ := call_of_run h₂ hact.call_after
  obtain rfl := Option.some.inj (ha.symm.trans ha')
  rw [hper.answer] at hh
  exact ⟨h', by simp [hh]⟩

theorem performs_of_hist {s₀ : M.State} {ls : List M.Label} {c : M.Config}
    (hrun : Run step (M.initial s₀) ls c) {i : Nat} {a : M.Activity} (ha : c.calls[i]? = some a)
    {h h' : List (Event M.sig M.Err)} {e : Event M.sig M.Err} (hh : a.hist = h ++ e :: h') :
    ∃ ls₁ w c₁ c₂, Performs s₀ ls c i a.request h e ls₁ w c₁ c₂ := by
  induction hrun generalizing a h' with
  | refl => simp [initial] at ha
  | @tail c c' ls l hp _ hs ih =>
    have extend : ∀ {q}, (∃ ls₁ w c₁ c₂, Performs s₀ ls c i q h e ls₁ w c₁ c₂) →
        ∃ ls₁ w c₁ c₂, Performs s₀ (ls ++ [l]) c' i q h e ls₁ w c₁ c₂ := by
      rintro q ⟨ls₁, w, c₁, c₂, ⟨ls₂, hls, h₂⟩, hb, hact, hans⟩
      exact ⟨ls₁, w, c₁, c₂, ⟨ls₂ ++ [l], by simp [hls], .tail h₂ trivial hs⟩, hb, hact, hans⟩
    rcases call_step hs ha with ha | ⟨q, rfl, rfl⟩ | ⟨w, q, o, k, h₀, rfl, hact, rfl⟩
    · exact extend (ih ha hh)
    · simp at hh
    · rcases List.eq_nil_or_concat h' with rfl | ⟨h₁, e₁, rfl⟩
      · obtain ⟨rfl, rfl⟩ := List.append_singleton_inj.mp hh
        exact ⟨ls, w, c, c', ⟨[], rfl, .refl⟩, hp, ⟨k, hact⟩, rfl⟩
      · rw [List.concat_eq_append, ← List.cons_append, ← List.append_assoc] at hh
        have hper := ih hact.call (List.append_singleton_inj.mp hh).1
        exact extend hper

theorem only_run {A : M.Request → M.sig.Op → Prop} (hbody : ∀ q, (M.body q).Only (A q))
    {G : M.Config → M.Label → Prop} {s₀ : M.State} {ls : List M.Label} {c : M.Config}
    (hrun : Path step G (M.initial s₀) ls c) : ∀ a ∈ c.calls, a.proc.Only (A a.request) := by
  induction hrun with
  | refl => simp [initial]
  | tail _ _ hs ih =>
    intro a ha
    obtain ⟨i, ha⟩ := List.getElem?_of_mem ha
    rcases call_step hs ha with ha | ⟨q, -, rfl⟩ | ⟨w, q, o, k, h, -, hact, rfl⟩
    · exact ih a (List.mem_of_getElem? ha)
    · exact hbody q
    · exact (ih _ (List.mem_of_getElem? hact.call)).2 _

theorem Acts.only {A : M.Request → M.sig.Op → Prop} (hbody : ∀ q, (M.body q).Only (A q))
    {G : M.Config → M.Label → Prop} {s₀ : M.State} {ls : List M.Label} {c c' : M.Config} {i : Nat}
    {w : M.World} {q : M.Request} {o : M.sig.Op} {h : List (Event M.sig M.Err)}
    {k : Except M.Err (M.sig.Ret o) → Proc M.sig M.Err M.Res}
    (hrun : Path step G (M.initial s₀) ls c) (ha : Acts c i w c' q o k h) : A q o :=
  (only_run hbody hrun _ (List.mem_of_getElem? ha.call)).1

section Modes

variable (P : Protocol M.sig M.Err) (init : M.Request → P.Mode)

def Activity.mode (a : M.Activity) : P.Mode := P.after (init a.request) a.hist

def Config.modes (c : M.Config) : List P.Mode := c.calls.map fun a => a.mode P init

@[simp] theorem modes_initial (s : M.State) : (M.initial s).modes P init = [] := rfl

theorem modes_start (c : M.Config) (q : M.Request) :
    Config.modes P init { c with calls := c.calls ++ [⟨q, M.body q, []⟩] } =
      c.modes P init ++ [init q] := by
  simp [Config.modes, Activity.mode]

variable {P init} {c c' : M.Config} {i : Nat} {w : M.World} {q : M.Request} {o : M.sig.Op}
variable {k : Except M.Err (M.sig.Ret o) → Proc M.sig M.Err M.Res}
variable {h : List (Event M.sig M.Err)}

theorem Acts.mode_at (ha : Acts c i w c' q o k h) :
    (c.modes P init)[i]? = some (P.after (init q) h) := by
  simp [Config.modes, ha.call, Activity.mode]

theorem Acts.modes (ha : Acts c i w c' q o k h) :
    c'.modes P init =
      (c.modes P init).set i (P.next (P.after (init q) h) o (M.exec o w c.state).1) := by
  rw [ha.result]
  simp [Config.modes, List.map_set, Activity.mode]

end Modes

section Follows

variable {P : Protocol M.sig M.Err} {init : M.Request → P.Mode}
variable {Q : M.Request → P.Mode → Except M.Err M.Res → Prop}
variable {G : M.Config → M.Label → Prop} {s₀ : M.State} {c : M.Config} {ls : List M.Label}

/-- Every call is, from its present mode on, still following the protocol. -/
def Config.Disciplined (P : Protocol M.sig M.Err) (init : M.Request → P.Mode)
    (Q : M.Request → P.Mode → Except M.Err M.Res → Prop) (c : M.Config) : Prop :=
  ∀ a ∈ c.calls, a.proc.Follows P (Q a.request) (a.mode P init)

/-- In the runs from `s₀`, the operations give the answers that the protocol expects. -/
def Answered (P : Protocol M.sig M.Err) (G : M.Config → M.Label → Prop) (s₀ : M.State) : Prop :=
  ∀ ls c o w, Path step G (M.initial s₀) ls c → M.possible o w c.state →
    P.answer o (M.exec o w c.state).1

theorem disciplined (hbody : ∀ q, (M.body q).Follows P (Q q) (init q))
    (hans : Answered P G s₀)
    (hrun : Path step G (M.initial s₀) ls c) : c.Disciplined P init Q := by
  induction hrun with
  | refl => simp [Config.Disciplined, initial]
  | @tail c c' ls l hp _ hs ih =>
    intro a ha
    obtain ⟨i, ha⟩ := List.getElem?_of_mem ha
    rcases call_step hs ha with ha | ⟨q, -, rfl⟩ | ⟨w, q, o, k, h, -, hact, rfl⟩
    · exact ih a (List.mem_of_getElem? ha)
    · exact hbody q
    · have hf := (Proc.follows_call o k).mp (ih _ (List.mem_of_getElem? hact.call))
      simpa [Activity.mode] using hf.2 _ (hans _ _ o w hp hact.possible)

theorem Acts.allowed (hbody : ∀ q, (M.body q).Follows P (Q q) (init q))
    (hans : Answered P G s₀)
    (hrun : Path step G (M.initial s₀) ls c) {c' : M.Config} {i : Nat} {w : M.World}
    {q : M.Request} {o : M.sig.Op} {k : Except M.Err (M.sig.Ret o) → Proc M.sig M.Err M.Res}
    {h : List (Event M.sig M.Err)} (ha : Acts c i w c' q o k h) :
    P.allow (P.after (init q) h) o :=
  ((Proc.follows_call o k).mp (disciplined hbody hans hrun _ (List.mem_of_getElem? ha.call))).1

/-- An invariant of the shared state together with the modes of the calls: it has
to survive new calls and every operation that the protocol allows. -/
theorem modes_invariant {J : M.State → List P.Mode → Prop}
    (hbody : ∀ q, (M.body q).Follows P (Q q) (init q))
    (hans : Answered P G s₀)
    (h₀ : J s₀ [])
    (hstart : ∀ s ms q, J s ms → J s (ms ++ [init q]))
    (hact : ∀ c i w c' q o k h, G c (.act i w) → Acts c i w c' q o k h →
      J c.state (c.modes P init) → P.allow (P.after (init q) h) o →
      J (M.exec o w c.state).2
        ((c.modes P init).set i (P.next (P.after (init q) h) o (M.exec o w c.state).1)))
    (hrun : Path step G (M.initial s₀) ls c) : J c.state (c.modes P init) := by
  induction hrun with
  | refl => exact h₀
  | @tail c c' ls l hp hG hs ih =>
    have hD := disciplined (Q := Q) hbody hans hp
    cases l with
    | start q =>
      rw [step_start hs, modes_start]
      exact hstart _ _ q ih
    | act i w =>
      obtain ⟨q, o, k, h, ha⟩ := step_act hs
      have hf := (Proc.follows_call o k).mp (hD _ (List.mem_of_getElem? ha.call))
      rw [ha.modes, ha.result]
      exact hact c i w c' q o k h hG ha ih hf.1

theorem finished (hbody : ∀ q, (M.body q).Follows P (Q q) (init q))
    (hans : Answered P G s₀)
    (hrun : Path step G (M.initial s₀) ls c) {a : M.Activity} (ha : a ∈ c.calls)
    {r : Except M.Err M.Res} (hr : a.proc.result = some r) :
    Q a.request (a.mode P init) r := by
  have hf := disciplined hbody hans hrun a ha
  cases hp : a.proc with
  | ret v => rw [hp] at hf hr; cases hr; exact hf
  | raise e => rw [hp] at hf hr; cases hr; exact hf
  | call o k => rw [hp] at hr; cases hr

end Follows

end Machine

end Library
