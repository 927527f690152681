import SubagentBridge.Recovery.ResumeExclusion
import SubagentBridge.Recovery.ItemIdentity

/-! Ambiguous items: left to the operator once their side effects may have happened. -/

namespace SubagentBridge.Supervisor

open Library Domain TeamStore

variable {F : Type} {d : String}

section Holding

def claims (d : String) : Event (sig F) Error → Bool
  | ⟨.markTaskResuming d', .ok _⟩ => d' = d
  | _ => false

def releases (d : String) : Event (sig F) Error → Bool
  | ⟨.saveQueueItem item, .ok _⟩ => item.dispatchId = d && item.status ≠ .running
  | _ => false

def holding (d : String) (h : History F) : Bool := h.any (claims d) && !h.any (releases d)

theorem claimed_iff {h : History F} : Claimed d h ↔ h.any (claims d) = true := by
  rw [List.any_eq_true]
  constructor
  · rintro ⟨item, hi⟩
    exact ⟨_, hi, decide_eq_true rfl⟩
  · rintro ⟨⟨o, r⟩, he, hc⟩
    unfold claims at hc
    split at hc
    next d' item heq =>
      obtain rfl := of_decide_eq_true hc
      exact ⟨item, heq ▸ he⟩
    next => cases hc

theorem released_iff {h : History F} : Released d h ↔ h.any (releases d) = true := by
  rw [List.any_eq_true]
  constructor
  · rintro ⟨item, hi, hd, hst⟩
    exact ⟨_, hi, by simp [releases, hd, hst]⟩
  · rintro ⟨⟨o, r⟩, he, hr⟩
    unfold releases at hr
    split at hr
    next item u heq =>
      obtain ⟨hd, hst⟩ := Bool.and_eq_true_iff.mp hr
      exact ⟨item, heq ▸ he, of_decide_eq_true hd, of_decide_eq_true hst⟩
    next => cases hr

theorem holds_iff {h : History F} : Holds d h ↔ holding d h = true := by
  rw [Holds, claimed_iff, released_iff, holding]
  simp

end Holding

/-- An ambiguous item is not claimed for resumption, no handoff completes it, and a whole-row
write over it comes from a call that has read it ambiguous. -/
def respectsAmbiguous (db : Db F) (h : History F) : Op F → Bool
  | .markTaskResuming d => statusOf db d ≠ some .ambiguous
  | .finalizeHandoff _ evidence status _ =>
    status.isNone || statusOf db evidence.dispatchId ≠ some .ambiguous
  | .saveQueueItem item => statusOf db item.dispatchId ≠ some .ambiguous ||
    (snapshot h item.dispatchId).map (·.status) = some .ambiguous
  | _ => true

def abandonedByAll (hs : List (History F)) : Op F → Bool
  | .saveQueueItem item => item.status ≠ .ambiguous || hs.all fun h => !holding item.dispatchId h
  | _ => true

def Request.resolves (d : String) : Request F → Bool
  | .reconcileAmbiguous d' _ _ => d' = d
  | _ => false

variable {db : Db F} {ms : List (Request F × History F)} {q : Request F} {h : History F} {i : Nat}

def Abandoned (d : String) (db : Db F) (ms : List (Request F × History F)) : Prop :=
  statusOf db d = some .ambiguous → ∀ m ∈ ms, ¬ Holds d m.2

theorem abandoned_nil : Abandoned d db [] := by
  intro _ m hm
  cases hm

theorem Abandoned.start (ha : Abandoned d db ms) (q : Request F) :
    Abandoned d db (ms ++ [(q, [])]) := by
  intro hst m hm
  rcases List.mem_append.mp hm with hm | hm
  · exact ha hst m hm
  · obtain rfl := List.mem_singleton.mp hm
    exact not_holds_nil

variable [FloatText F] [LinearOrder F] {repr : String → String} {w : World F} {o : Op F}

theorem ambiguous_exec (ha : Allowed q h o) (hg : respectsAmbiguous db h o = true)
    (hst : statusOf db d = some .ambiguous)
    (hq : q.resolves d = false ∨ ∀ item, o ≠ .saveQueueItem item) :
    statusOf (exec repr o w db).2 d = some .ambiguous := by
  obtain ⟨row, hrow, hamb⟩ := Option.map_eq_some_iff.mp hst
  rcases row_exec repr o w db d with hsame | ⟨row', hrow', hc⟩
  · rw [statusOf, hsame, ← statusOf, hst]
  rw [statusOf_of_get? hrow']
  generalize (exec repr o w db).1 = r at hc
  cases hc with
  | inserted item hd hnew => cases hnew.symm.trans hrow
  | created item hd hnew => cases hnew.symm.trans hrow
  | steered hrow₁ => rw [← hamb, Option.some.inj (Eq.trans (Eq.symm hrow₁) hrow)]
  | cancelled hrow₁ _ hact =>
    obtain rfl := Option.some.inj (hrow₁.symm.trans hrow)
    rw [hamb] at hact
    cases hact
  | marked r hrow₁ => exact absurd hst (of_decide_eq_true hg)
  | finalized hd =>
    subst hd
    exact absurd hst (of_decide_eq_true hg)
  | saved item hd =>
    subst hd
    obtain ⟨s, hs, -, hmay, hcon⟩ := ha
    have hs' : s.status = .ambiguous := by
      simpa [respectsAmbiguous, hst, hs] using hg
    rw [hs'] at hmay
    cases q with
    | interruptWorker => cases hmay.1
    | reconcileTeam => cases hmay.1
    | resumeTask => cases hmay.1
    | reconcileAmbiguous d' =>
      obtain rfl : item.dispatchId = d' := hcon
      rcases hq with hq | hq
      · simp [Request.resolves] at hq
      · exact absurd rfl (hq item)
    | _ => cases hmay

theorem ambiguous_of_exec (ha : Allowed q h o) (hst : statusOf db d ≠ some .ambiguous)
    (hst' : statusOf (exec repr o w db).2 d = some .ambiguous) :
    ∃ item, o = .saveQueueItem item ∧ item.dispatchId = d ∧ item.status = .ambiguous := by
  rcases row_exec repr o w db d with hsame | ⟨row', hrow', hc⟩
  · exact absurd (by rwa [statusOf, hsame, ← statusOf] at hst') hst
  rw [statusOf_of_get? hrow'] at hst'
  have hamb := Option.some.inj hst'
  generalize (exec repr o w db).1 = r at hc
  cases hc with
  | inserted item =>
    obtain ⟨-, hpending, -⟩ := ha
    cases hpending.symm.trans hamb
  | created item hd => exact ⟨item, rfl, hd, hamb⟩
  | saved item hd => exact ⟨item, rfl, hd, hamb⟩
  | steered hrow =>
    refine absurd ?_ hst
    rw [statusOf_of_get? hrow]
    exact congrArg some hamb
  | cancelled => cases hamb
  | marked => cases hamb
  | finalized =>
    obtain ⟨submitted, _, _, -, -, hnew, -⟩ := ha
    rw [handoffStatus] at hnew
    split at hnew
    · cases hnew
    · cases (Option.some.inj hnew).symm.trans hamb

theorem Abandoned.act (hab : Abandoned d db ms) (hi : ms[i]? = some (q, h)) (ha : Allowed q h o)
    (hg : respectsAmbiguous db h o = true) (hall : abandonedByAll (ms.map (·.2)) o = true) :
    Abandoned d (exec repr o w db).2 (ms.set i (q, h ++ [⟨o, (exec repr o w db).1⟩])) := by
  intro hst' m hm hh
  have free : (∀ m ∈ ms, ¬ Holds d m.2) ∧ o ≠ .markTaskResuming d := by
    by_cases hst : statusOf db d = some .ambiguous
    · refine ⟨hab hst, fun ho => ?_⟩
      subst ho
      exact of_decide_eq_true hg hst
    · obtain ⟨item, rfl, rfl, hamb⟩ := ambiguous_of_exec ha hst hst'
      refine ⟨fun m hm hh => ?_, by simp⟩
      simp only [abandonedByAll, hamb, ne_eq, not_true_eq_false, decide_false, Bool.false_or,
        List.all_map, List.all_eq_true] at hall
      have hfree := hall m hm
      rw [holds_iff] at hh
      simp [hh] at hfree
  rcases List.mem_or_eq_of_mem_set hm with hm | rfl
  · exact free.1 m hm hh
  rcases holds_snoc_inv hh with hh | ⟨item, he⟩
  · exact free.1 _ (List.mem_of_getElem? hi) hh
  · exact free.2 (Event.mk.inj he).1

section Runs

variable [FloatInt F] {B : Builtins F} {s₀ : Db F} {c c₁ c₂ : Calls B}
variable {ls ls₁ ls₂ : List (supervisors B).Label}

abbrev allRespectAmbiguous (c : Calls B) : (supervisors B).Label → Bool :=
  guarding (fun c _ h o => respectsAmbiguous c.state h o &&
    abandonedByAll ((records c).map (·.2)) o) c

def unresolved (d : String) (c : Calls B) : (supervisors B).Label → Bool :=
  guarding (fun _ q _ o => match o with
    | .saveQueueItem _ => !q.resolves d
    | _ => true) c

theorem abandoned_run (hk : Keyed s₀)
    (hrun : Path (Step B) (fun c l => allRespectAmbiguous c l = true) (start B s₀) ls c) :
    Abandoned d c.state (records c) := by
  refine run_invariant hk abandoned_nil (fun db ms q ha => ha.start q) ?_ hrun
  intro c i w c' q o k h _ hG hact hab ha
  obtain ⟨hg, hall⟩ := Bool.and_eq_true_iff.mp (guarding_act hact hG)
  exact hab.act (records_call hact.call) ha hg hall

/-- As long as nothing but a resolution touches ambiguous items, and none becomes ambiguous while
it is resumed, an item stays ambiguous until it is resolved and no step of it is dispatched. -/
theorem ambiguous_sticky (hk : Keyed s₀)
    (h₁ : Path (Step B) (fun c l => allRespectAmbiguous c l = true) (start B s₀) ls₁ c₁)
    (h₂ : Path (Step B) (fun c l => allRespectAmbiguous c l = true ∧ unresolved d c l = true)
      c₁ ls₂ c₂) (hst : statusOf c₁.state d = some .ambiguous) :
    statusOf c₂.state d = some .ambiguous ∧ ∀ i, ¬ Dispatching d c₂ i := by
  have hrun : ∀ {ls c}, Path (Step B) (fun c l => allRespectAmbiguous c l = true ∧
      unresolved d c l = true) c₁ ls c →
      Path (Step B) (fun c l => allRespectAmbiguous c l = true) (start B s₀) (ls₁ ++ ls) c :=
    fun h => h₁.trans (h.mono fun _ _ hG => hG.1)
  have hst₂ : statusOf c₂.state d = some .ambiguous := by
    induction h₂ with
    | refl => exact hst
    | @tail c c' ls l h₂ hG hs ih =>
      cases l with
      | start q => rw [Machine.step_start hs]; exact ih
      | act i w =>
        obtain ⟨q, o, k, h, hact⟩ := Machine.step_act hs
        obtain ⟨hg, -⟩ := Bool.and_eq_true_iff.mp (guarding_act hact hG.1)
        have hq : q.resolves d = false ∨ ∀ item, o ≠ .saveQueueItem item := by
          have hun := guarding_act hact hG.2
          cases o with
          | saveQueueItem => exact .inl (by simpa using hun)
          | _ => exact .inr fun _ => by simp
        rw [hact.result]
        exact ambiguous_exec (acts_allowed hk (hrun h₂) hact) hg ih hq
  refine ⟨hst₂, fun i hd => ?_⟩
  obtain ⟨trusted, workerId, taskId, payload, k, h, hc⟩ := hd
  obtain ⟨d', trusted', hq, hh⟩ := next_allowed hk (hrun h₂) hc
  cases hq
  exact abandoned_run hk (hrun h₂) hst₂ _ (List.mem_of_getElem? (records_call hc)) hh

def dispatching (d : String) : (supervisors B).Activity → Bool
  | ⟨.resumeTask d' _, .call (.dispatchTaskToWorker _ _ _) _, _⟩ => d' = d
  | _ => false

theorem dispatching_of_any {i : Nat} (h : c.calls[i]?.any (dispatching d) = true) :
    Dispatching d c i := by
  obtain ⟨call, hc, hd⟩ := (Option.any_eq_true _ _).mp h
  unfold dispatching at hd
  split at hd
  · obtain rfl := of_decide_eq_true hd
    exact ⟨_, _, _, _, _, _, hc⟩
  · cases hd

def crashedItem : Db Int := sampleDb [sampleItem "d" .dispatched none]

def crashed : List SampleLabel := ask (.reconcileTeam "t" true) :: acts 0 6 1

theorem ambiguous_resumed : ∃ c₁ c₂ : Calls sampleBuiltins,
    Run (Step sampleBuiltins) (start sampleBuiltins crashedItem) crashed c₁ ∧
    Run (Step sampleBuiltins) c₁ (ask (.resumeTask "d" true) :: acts 1 9 2) c₂ ∧
    statusOf c₁.state "d" = some .ambiguous ∧ statusOf c₂.state "d" = some .running ∧
    Dispatching "d" c₂ 1 := by
  have h : (Library.exec (Step sampleBuiltins) (start sampleBuiltins crashedItem) crashed).any
      (fun c => statusOf c.state "d" = some .ambiguous &&
        (Library.exec (Step sampleBuiltins) c (ask (.resumeTask "d" true) :: acts 1 9 2)).any
          fun c => statusOf c.state "d" = some .running && c.calls[1]?.any (dispatching "d")) =
      true := by
    decide +kernel
  obtain ⟨c₁, h₁, hc⟩ := run_of_any h
  obtain ⟨hst₁, h₂⟩ := Bool.and_eq_true_iff.mp hc
  obtain ⟨c₂, h₂, hc⟩ := run_of_any h₂
  obtain ⟨hst₂, hd⟩ := Bool.and_eq_true_iff.mp hc
  exact ⟨c₁, c₂, h₁, h₂, of_decide_eq_true hst₁, of_decide_eq_true hst₂, dispatching_of_any hd⟩

/-- An interruption and a second reconciliation leave an ambiguous item alone. -/
theorem ambiguous_sticky_crashed : ∃ c₁ c₂ : Calls sampleBuiltins,
    statusOf c₁.state "d" = some .ambiguous ∧
    (∀ call ∈ c₂.calls, call.proc.result.isSome = true) ∧ c₂.calls.length = 3 ∧
    statusOf c₂.state "d" = some .ambiguous ∧ ∀ i, ¬ Dispatching "d" c₂ i := by
  have h : (Library.exec (restrict (Step sampleBuiltins) fun c l => allRespectAmbiguous c l = true)
      (start sampleBuiltins crashedItem) crashed).any
      (fun c => statusOf c.state "d" = some .ambiguous &&
        (Library.exec (restrict (Step sampleBuiltins) fun c l => allRespectAmbiguous c l = true ∧
          unresolved "d" c l = true) c (ask (.interruptWorker "worker" "") :: acts 1 4 2 ++
            ask (.reconcileTeam "t" true) :: acts 2 1 3)).any
          fun c => (c.calls.all fun call => call.proc.result.isSome) && c.calls.length = 3) =
      true := by
    decide +kernel
  obtain ⟨c₁, h₁, hc⟩ := run_of_any h
  obtain ⟨hst₁, h₂⟩ := Bool.and_eq_true_iff.mp hc
  obtain ⟨c₂, h₂, hc⟩ := run_of_any h₂
  obtain ⟨hdone, hlen⟩ := Bool.and_eq_true_iff.mp hc
  have hk : Keyed crashedItem := keyed_sampleDb _ (by decide)
  have hst₁ := of_decide_eq_true hst₁
  exact ⟨c₁, c₂, hst₁, List.all_eq_true.mp hdone, of_decide_eq_true hlen,
    ambiguous_sticky hk (path_of_restrict h₁) (path_of_restrict h₂) hst₁⟩

end Runs

end SubagentBridge.Supervisor
