import SubagentBridge.Recovery.SupervisorRuns

/-! Resume mutual exclusion: between the claim and the last write of an item there is one call. -/

namespace SubagentBridge.Supervisor

open Library Domain TeamStore

variable {F : Type} {d : String}

def Op.writes : Op F → Option String
  | .insertQueueItemOnce item | .saveQueueItem item => some item.dispatchId
  | .steerQueueItemOnce _ d _ _ | .cancelActiveQueueItem d _ _ | .markTaskResuming d => some d
  | .finalizeHandoff _ evidence _ _ => some evidence.dispatchId
  | _ => none

def Request.resumes (d : String) : Request F → Bool
  | .resumeTask d' _ => d' = d
  | _ => false

section Holding

variable {h h' : History F} {e : Event (sig F) Error}

theorem released_mono (hp : h <+: h') (hr : Released d h) : Released d h' :=
  let ⟨item, hi, hd⟩ := hr
  ⟨item, hp.subset hi, hd⟩

theorem holds_snoc_inv (hh : Holds d (h ++ [e])) :
    Holds d h ∨ ∃ item, e = ⟨.markTaskResuming d, .ok item⟩ := by
  obtain ⟨⟨item, hi⟩, hr⟩ := hh
  rcases List.mem_append.mp hi with hi | hi
  · exact .inl ⟨⟨item, hi⟩, fun h => hr (released_mono (List.prefix_append ..) h)⟩
  · exact .inr ⟨item, (List.mem_singleton.mp hi).symm⟩

end Holding

section Exclusive

variable {db : Db F} {ms : List (Request F × History F)} {q : Request F} {h : History F} {i : Nat}

structure Exclusive (d : String) (db : Db F) (ms : List (Request F × History F)) : Prop where
  unique : ∀ (i j : Nat) m m', ms[i]? = some m → ms[j]? = some m' → Holds d m.2 → Holds d m'.2 →
    i = j
  running : ∀ m ∈ ms, Holds d m.2 → ∃ row, db.queue.get? d = some row ∧ row.status = .running

theorem exclusive_nil : Exclusive d db [] where
  unique := by simp
  running := by simp

theorem not_holds_nil : ¬ Holds d ([] : History F) := fun hh => by
  obtain ⟨⟨item, hi⟩, -⟩ := hh
  cases hi

theorem Exclusive.start (he : Exclusive d db ms) (q : Request F) :
    Exclusive d db (ms ++ [(q, [])]) := by
  have hold : ∀ (i : Nat) m, (ms ++ [(q, [])])[i]? = some m → Holds d m.2 → ms[i]? = some m := by
    intro i m hm hh
    rw [List.getElem?_append] at hm
    split at hm
    · exact hm
    · obtain rfl := List.mem_singleton.mp (List.mem_of_getElem? hm)
      exact absurd hh not_holds_nil
  refine ⟨fun i j m m' hi hj hh hh' =>
    he.unique i j m m' (hold i m hi hh) (hold j m' hj hh') hh hh',
    fun m hm hh => ?_⟩
  obtain ⟨i, hi⟩ := List.getElem?_of_mem hm
  exact he.running m (List.mem_of_getElem? (hold i m hi hh)) hh

theorem Exclusive.shrink {db' : Db F} {e : Event (sig F) Error} (he : Exclusive d db ms)
    (hi : ms[i]? = some (q, h)) (hold : Holds d (h ++ [e]) → Holds d h)
    (hrow : ∀ j m, ms[j]? = some m → Holds d m.2 → (j = i → Holds d (h ++ [e])) →
      ∃ row, db'.queue.get? d = some row ∧ row.status = .running) :
    Exclusive d db' (ms.set i (q, h ++ [e])) := by
  have back : ∀ (j : Nat) m, (ms.set i (q, h ++ [e]))[j]? = some m → Holds d m.2 →
      ∃ m', ms[j]? = some m' ∧ Holds d m'.2 ∧ (j = i → Holds d (h ++ [e])) := by
    intro j m hj hh
    by_cases hij : i = j
    · subst hij
      rw [List.getElem?_set_self (List.getElem?_eq_some_iff.mp hi).1] at hj
      obtain rfl := Option.some.inj hj
      exact ⟨_, hi, hold hh, fun _ => hh⟩
    · rw [List.getElem?_set_ne hij] at hj
      exact ⟨m, hj, hh, fun hji => absurd hji.symm hij⟩
  refine ⟨fun j j' m m' hj hj' hh hh' => ?_, fun m hm hh => ?_⟩
  · obtain ⟨m₁, hm₁, hh₁, -⟩ := back j m hj hh
    obtain ⟨m₂, hm₂, hh₂, -⟩ := back j' m' hj' hh'
    exact he.unique j j' m₁ m₂ hm₁ hm₂ hh₁ hh₂
  · obtain ⟨j, hj⟩ := List.getElem?_of_mem hm
    obtain ⟨m', hm', hh', hji⟩ := back j m hj hh
    exact hrow j m' hm' hh' hji

theorem Exclusive.claim {db' : Db F} {item : QueueItem F} (he : Exclusive d db ms)
    {row row' : QueueRow F} (hrow : db.queue.get? d = some row)
    (hst : row.status ≠ .running) (hrow' : db'.queue.get? d = some row')
    (hst' : row'.status = .running) :
    Exclusive d db' (ms.set i (q, h ++ [⟨.markTaskResuming d, .ok item⟩])) := by
  have none_holds : ∀ m ∈ ms, ¬ Holds d m.2 := fun m hm hh => by
    obtain ⟨r, hr, hrun⟩ := he.running m hm hh
    exact hst (Option.some.inj (hrow.symm.trans hr) ▸ hrun)
  have only : ∀ (j : Nat) m, (ms.set i (q, h ++ [⟨.markTaskResuming d, .ok item⟩]))[j]? = some m →
      Holds d m.2 → i = j := by
    intro j m hj hh
    by_contra hij
    rw [List.getElem?_set_ne hij] at hj
    exact none_holds m (List.mem_of_getElem? hj) hh
  exact ⟨fun j j' m m' hj hj' hh hh' => (only j m hj hh).symm.trans (only j' m' hj' hh'),
    fun m hm hh => ⟨row', hrow', hst'⟩⟩

variable [FloatText F] [LinearOrder F] {repr : String → String} {w : World F} {o : Op F}

theorem RowChange.writes {r : Except Error o.Ret} {row : QueueRow F}
    (hc : RowChange w db d o r row) : o.writes = some d := by
  cases hc with
  | inserted item hd => exact congrArg some hd
  | created item hd => exact congrArg some hd
  | saved item hd => exact congrArg some hd
  | finalized hd => exact congrArg some hd
  | _ => rfl

theorem mark_ok {item : QueueItem F} (h : (exec repr (.markTaskResuming d) w db).1 = .ok item) :
    ∃ row, db.queue.get? d = some row ∧ row.status ≠ .running ∧
      ∃ row', (exec repr (.markTaskResuming d) w db).2.queue.get? d = some row' ∧
        row'.status = .running := by
  rw [exec] at h ⊢
  split at h
  · cases h
  next hf =>
    rw [if_neg hf]
    rw [run, Db.markTaskResuming] at h ⊢
    cases hrow : db.queue.get? d with
    | none => simp only [hrow] at h; cases h
    | some row =>
      simp only [hrow] at h ⊢
      refine ⟨row, rfl, ?_⟩
      split at h
      · cases h
      · cases h
      · cases h
      next hr _ _ =>
        exact ⟨hr, _, (Dict.get?_set ..).trans (if_pos rfl), rfl⟩

theorem exclusive_exec (he : Exclusive d db ms) (hi : ms[i]? = some (q, h))
    (ha : Allowed q h o) (hq : o.writes = some d → q.resumes d = true) :
    Exclusive d (exec repr o w db).2 (ms.set i (q, h ++ [⟨o, (exec repr o w db).1⟩])) := by
  by_cases hm : ∃ item, (⟨o, (exec repr o w db).1⟩ : Event (sig F) Error) =
      ⟨.markTaskResuming d, .ok item⟩
  · obtain ⟨item, hev⟩ := hm
    obtain ⟨rfl, hans⟩ := Event.mk.inj hev
    obtain ⟨row, hrow, hst, row', hrow', hst'⟩ := mark_ok (eq_of_heq hans)
    rw [hev]
    exact he.claim hrow hst hrow' hst'
  have hold : Holds d (h ++ [⟨o, (exec repr o w db).1⟩]) → Holds d h := fun hh =>
    (holds_snoc_inv hh).resolve_right hm
  refine he.shrink hi hold fun j m hj hh hji => ?_
  rcases row_exec repr o w db d with hsame | ⟨row, hrow, hc⟩
  · rw [hsame]
    exact he.running m (List.mem_of_getElem? hj) hh
  refine ⟨row, hrow, ?_⟩
  have hres := hq hc.writes
  generalize (exec repr o w db).1 = r at hc hji
  cases hc with
  | inserted => obtain ⟨⟨_, _, _, _, _, _, rfl⟩, -⟩ := ha; cases hres
  | steered => obtain ⟨_, rfl, -⟩ | ⟨_, rfl, -⟩ := ha <;> cases hres
  | cancelled => obtain rfl := ha; cases hres
  | finalized => obtain ⟨_, _, _, rfl, -⟩ := ha; cases hres
  | marked => rfl
  | created item hd hnew =>
    obtain ⟨r, hr, -⟩ := he.running m (List.mem_of_getElem? hj) hh
    cases hnew.symm.trans hr
  | saved item hd hrow' =>
    obtain ⟨s, -, -, -, hcon⟩ := ha
    cases q with
    | resumeTask d' trusted =>
      obtain rfl : d' = d := by simpa [Request.resumes] using hres
      have hnow := hji (he.unique _ _ _ _ hj hi hh hcon.2)
      by_contra hst
      exact hnow.2 ⟨item, by simp, hd, hst⟩
    | _ => cases hres

end Exclusive

/-! ## Runs -/

section Runs

variable [LinearOrder F] [FloatText F] [FloatInt F] {B : Builtins F}

def onlyResumes (d : String) (c : Calls B) : (supervisors B).Label → Bool
  | .start _ => true
  | .act i _ => match c.calls[i]? with
    | some ⟨q, .call o _, _⟩ => o.writes ≠ some d || q.resumes d
    | _ => true

variable {s₀ : Db F} {c c₁ c₂ : Calls B} {ls ls₁ ls₂ : List (supervisors B).Label} {i : Nat}

theorem exclusive_run (hk : Keyed s₀)
    (hrun : Path (Step B) (fun c l => onlyResumes d c l = true) (start B s₀) ls c) :
    Exclusive d c.state (records c) := by
  refine run_invariant hk exclusive_nil (fun db ms q he => he.start q) ?_ hrun
  intro c i w c' q o k h _ hG hact he ha
  refine exclusive_exec he (records_call hact.call) ha fun hw => ?_
  simpa [onlyResumes, hact.call, hw] using hG

theorem resumes_of_claimed (hk : Keyed s₀) {G : Calls B → (supervisors B).Label → Prop}
    (hrun : Path (Step B) G (start B s₀) ls c) {call : (supervisors B).Activity}
    (hc : c.calls[i]? = some call) {r : Except Error (QueueItem F)}
    (hm : ⟨.markTaskResuming d, r⟩ ∈ call.hist) :
    ∃ trusted, call.request = .resumeTask d trusted := by
  obtain ⟨h, h', hh⟩ := List.append_of_mem hm
  exact (hist_allowed hk hrun hc hh).1

/-- The call has claimed the item before `c₁`, and still writes it between `c₁` and `c₂`. -/
def Between (d : String) (c₁ c₂ : Calls B) (i : Nat) : Prop :=
  ∃ call call' h', c₁.calls[i]? = some call ∧ c₂.calls[i]? = some call' ∧
    call'.hist = call.hist ++ h' ∧ Claimed d call.hist ∧
    ∃ e ∈ h', ∃ item, e.op = .saveQueueItem item ∧ item.dispatchId = d

def Lost (d : String) (call : (supervisors B).Activity) : Prop :=
  ∃ e, ⟨.markTaskResuming d, .error e⟩ ∈ call.hist

def Dispatching (d : String) (c : Calls B) (i : Nat) : Prop :=
  ∃ trusted workerId taskId payload k h, c.calls[i]? =
    some ⟨.resumeTask d trusted, .call (.dispatchTaskToWorker workerId taskId payload) k, h⟩

theorem holds_of_between (hk : Keyed s₀) {G : Calls B → (supervisors B).Label → Prop}
    (h₁ : Path (Step B) G (start B s₀) ls₁ c₁) (h₂ : Path (Step B) G c₁ ls₂ c₂)
    (hb : Between d c₁ c₂ i) : ∃ m, (records c₁)[i]? = some m ∧ Holds d m.2 := by
  obtain ⟨call, call', h', hc, hc', hh, hcl, e, he, item, hop, hd⟩ := hb
  refine ⟨_, records_call hc, hcl, fun hr => ?_⟩
  obtain ⟨a, b, rfl⟩ := List.append_of_mem he
  have hhist : call'.hist = (call.hist ++ a) ++ e :: b := by rw [hh, List.append_assoc]
  have ha := hist_allowed hk (h₁.trans h₂) hc' hhist
  rw [hop] at ha
  obtain ⟨s, -, -, -, hcon⟩ := ha
  obtain ⟨item', hm⟩ := hcl
  obtain ⟨trusted, hq⟩ := resumes_of_claimed hk (h₁.trans h₂) hc' (hh ▸ List.mem_append_left _ hm)
  rw [hq] at hcon
  exact hcon.2.2 (released_mono (List.prefix_append ..) hr)

theorem mark_once (hk : Keyed s₀) {G : Calls B → (supervisors B).Label → Prop}
    (hrun : Path (Step B) G (start B s₀) ls c) {call : (supervisors B).Activity}
    (hc : c.calls[i]? = some call) {r r' : Except Error (QueueItem F)}
    (hm : ⟨.markTaskResuming d, r⟩ ∈ call.hist) (hm' : ⟨.markTaskResuming d, r'⟩ ∈ call.hist) :
    r = r' := by
  obtain ⟨a, b, hh⟩ := List.append_of_mem hm
  have hnot := (hist_allowed hk hrun hc hh).2
  rw [hh] at hm'
  rcases List.mem_append.mp hm' with h | h
  · exact absurd rfl (hnot _ h)
  rcases List.mem_cons.mp h with h | h
  · exact (eq_of_heq (Event.mk.inj h).2).symm
  · obtain ⟨a', b', rfl⟩ := List.append_of_mem h
    have hh' : call.hist = (a ++ ⟨.markTaskResuming d, r⟩ :: a') ++
      ⟨.markTaskResuming d, r'⟩ :: b' := by
      rw [hh, List.append_assoc, List.cons_append]
    exact absurd rfl ((hist_allowed hk hrun hc hh').2 ⟨.markTaskResuming d, r⟩ (by simp))

theorem lost_idle (hk : Keyed s₀) {G : Calls B → (supervisors B).Label → Prop}
    (hrun : Path (Step B) G (start B s₀) ls c) {call : (supervisors B).Activity}
    (hc : c.calls[i]? = some call) (hl : Lost d call) {e : Event (sig F) Error}
    (he : e ∈ call.hist) :
    (∀ item, e.op ≠ .saveQueueItem item) ∧
      ∀ workerId taskId payload, e.op ≠ .dispatchTaskToWorker workerId taskId payload := by
  obtain ⟨err, hm⟩ := hl
  obtain ⟨trusted, hq⟩ := resumes_of_claimed hk hrun hc hm
  obtain ⟨a, b, hh⟩ := List.append_of_mem he
  have ha := hist_allowed hk hrun hc hh
  have never : ¬ Holds d a := fun hold => by
    obtain ⟨item, hi⟩ := hold.1
    cases mark_once hk hrun hc hm (hh ▸ List.mem_append_left _ hi)
  refine ⟨fun item hop => ?_, fun workerId taskId payload hop => ?_⟩
  · rw [hop, hq] at ha
    obtain ⟨s, -, -, -, hcon⟩ := ha
    exact never hcon.2
  · rw [hop, hq] at ha
    obtain ⟨d', trusted', hq', hold⟩ := ha
    cases hq'
    exact never hold

/-- While only resumptions touch the item, one call at most is between its claim and its last
write, a call that loses the claim neither writes nor dispatches, and no two calls dispatch. -/
theorem resume_exclusive (hk : Keyed s₀)
    (h₁ : Path (Step B) (fun c l => onlyResumes d c l = true) (start B s₀) ls₁ c₁)
    (h₂ : Path (Step B) (fun c l => onlyResumes d c l = true) c₁ ls₂ c₂) :
    (∀ i j, Between d c₁ c₂ i → Between d c₁ c₂ j → i = j) ∧
    (∀ (i : Nat) call, c₁.calls[i]? = some call → Lost d call → ∀ e ∈ call.hist,
      (∀ item, e.op ≠ .saveQueueItem item) ∧
        ∀ workerId taskId payload, e.op ≠ .dispatchTaskToWorker workerId taskId payload) ∧
    ∀ i j, Dispatching d c₁ i → Dispatching d c₁ j → i = j := by
  have hex := exclusive_run hk h₁
  refine ⟨fun i j hi hj => ?_, fun i call hc hl e he => lost_idle hk h₁ hc hl he,
    fun i j hi hj => ?_⟩
  · obtain ⟨m, hm, hh⟩ := holds_of_between hk h₁ h₂ hi
    obtain ⟨m', hm', hh'⟩ := holds_of_between hk h₁ h₂ hj
    exact hex.unique i j m m' hm hm' hh hh'
  · have held : ∀ i, Dispatching d c₁ i → ∃ m, (records c₁)[i]? = some m ∧ Holds d m.2 := by
      rintro i ⟨trusted, workerId, taskId, payload, k, h, hc⟩
      obtain ⟨d', trusted', hq, hold⟩ := next_allowed hk h₁ hc
      cases hq
      exact ⟨_, records_call hc, hold⟩
    obtain ⟨m, hm, hh⟩ := held i hi
    obtain ⟨m', hm', hh'⟩ := held j hj
    exact hex.unique i j m m' hm hm' hh hh'

def resumeRace : List SampleLabel :=
  ask (.resumeTask "d" true) :: ask (.resumeTask "d" true) :: (acts 0 3 1 ++ acts 1 3 2)

def failedMarks (d : String) (e : Event (sig F) Error) : Bool :=
  match e with
  | ⟨.markTaskResuming d', .error _⟩ => d' = d
  | _ => false

theorem lost_of_any {call : (supervisors B).Activity}
    (h : call.hist.any (failedMarks d) = true) : Lost d call := by
  obtain ⟨⟨o, r⟩, he, hm⟩ := List.any_eq_true.mp h
  unfold failedMarks at hm
  split at hm
  next d' e heq =>
    obtain rfl : d' = d := of_decide_eq_true hm
    exact ⟨e, heq ▸ he⟩
  next => cases hm

theorem resume_exclusive_race : ∃ (c₁ c₂ : Calls sampleBuiltins)
    (call : (supervisors sampleBuiltins).Activity), c₁.calls[1]? = some call ∧ Lost "d" call ∧
      (∀ e ∈ call.hist, ∀ item, e.op ≠ .saveQueueItem item) ∧
      ∀ i j, Between "d" c₁ c₂ i → Between "d" c₁ c₂ j → i = j := by
  have h : (Library.exec (restrict (Step sampleBuiltins) fun c l => onlyResumes "d" c l = true)
      (start sampleBuiltins (sampleDb [sampleItem "d" .dispatched none])) resumeRace).any
      (fun c => (c.calls[1]?.any fun call => call.hist.any (failedMarks "d")) &&
        ((Library.exec (restrict (Step sampleBuiltins) fun c l => onlyResumes "d" c l = true) c
          (acts 0 9 3)).any fun c => (c.calls[0]?.any fun call => call.proc.result.isSome))) =
      true := by
    decide +kernel
  obtain ⟨c₁, h₁, hc⟩ := run_of_any h
  obtain ⟨hlost, h₂⟩ := Bool.and_eq_true_iff.mp hc
  obtain ⟨c₂, h₂, -⟩ := run_of_any h₂
  obtain ⟨call, hcall, hl⟩ := (Option.any_eq_true _ _).mp hlost
  have hk := keyed_sampleDb [sampleItem "d" .dispatched none] (by decide)
  obtain ⟨hone, hidle, -⟩ := resume_exclusive hk (path_of_restrict h₁) (path_of_restrict h₂)
  have hlost := lost_of_any hl
  exact ⟨c₁, c₂, call, hcall, hlost, fun e he => (hidle 1 call hcall hlost e he).1, hone⟩

end Runs

end SubagentBridge.Supervisor
