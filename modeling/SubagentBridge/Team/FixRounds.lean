import SubagentBridge.Team.Provenance

/-! The rounds of QA reviews of a task, and what a run of calls makes of the cap on them. -/

namespace SubagentBridge.Team

open Library Domain Planner Qa SupervisedCoordinator

variable {B : Type} {api : BudgetApi B} {c : SupervisedCoordinator B} {uuid4 id : String}
variable {r : QaReview} {agg : TaskAggregate}

def round (c : SupervisedCoordinator B) (id : String) : Int := (c.fixRounds.get? id).getD 0

def currentRound (c : SupervisedCoordinator B) (r : QaReview) : Int :=
  max (round c r.taskId) (max r.fixRound 0)

@[simp] theorem round_release (id' : String) :
    round (c.releaseDispatch api id') id = round c id := by
  rw [releaseDispatch]
  split <;> rfl

inductive Counted (c c' : SupervisedCoordinator B) (r : QaReview) (d : EvidenceDecision) : Prop
  | accepts : d.status = .qaVerified → currentRound c r < 3 →
      round c' r.taskId = round c r.taskId → Counted c c' r d
  | exhausts : d.status = .blocked → 3 ≤ currentRound c r →
      round c' r.taskId = round c r.taskId → Counted c c' r d
  | blocks : d.status = .blocked → 3 ≤ round c' r.taskId →
      round c r.taskId ≤ round c' r.taskId → Counted c c' r d
  | denies : d.status = .unverified → round c r.taskId < round c' r.taskId →
      round c' r.taskId ≤ 2 → Counted c c' r d

@[simp] theorem round_setTask (id' : String) : round (c.setTask id' agg) id = round c id := rfl

theorem round_set (rounds : Int) :
    round { c with fixRounds := c.fixRounds.set id rounds } id = rounds := by
  rw [round, Dict.get?_set, if_pos rfl, Option.getD_some]

theorem check_status {gate : QaEvidenceGate} {receipts receipts' : ReceiptIssuerRegistry}
    {identities : IdentityRegistry} {qa : Principal} {evidence : List Evidence}
    {co : QaEvidenceGate.Checkout} {dispatchId tree : String} {n : Int} {d : EvidenceDecision}
    {v : Option QaVerdict} (hn : 0 ≤ n) (hlt : ¬ 3 ≤ n)
    (h : gate.check receipts identities uuid4 qa evidence co id dispatchId tree n =
      (d, v, receipts')) :
    (v.isSome ∧ d.status = .qaVerified) ∨ v = none ∧ d.status = .unverified := by
  rw [QaEvidenceGate.check, if_neg (by omega), if_neg hlt] at h
  split_ifs at h
  all_goals try (cases h; exact .inr ⟨rfl, rfl⟩)
  split at h
  next => cases h; exact .inl ⟨rfl, rfl⟩
  next => cases h; exact .inr ⟨rfl, rfl⟩

section

variable {c₀ c' : SupervisedCoordinator B} {d d' : EvidenceDecision}

theorem failReview_counted (hd : d'.status = .unverified)
    (h : failReview api r agg (currentRound c₀ r) d' c = (.ok d, c')) : Counted c₀ c' r d := by
  have hle : round c₀ r.taskId ≤ currentRound c₀ r := le_max_left _ _
  rw [failReview] at h
  split at h
  next hcap =>
    cases h
    have hround : round (releaseDispatch api r.taskId (setTask
        { c with fixRounds := c.fixRounds.set r.taskId (currentRound c₀ r + 1) } r.taskId
        agg.block)) r.taskId = currentRound c₀ r + 1 := by
      rw [round_release, round_setTask, round_set]
    exact .blocks rfl (by omega) (by omega)
  next hcap =>
    cases h
    have hround : round { c with fixRounds := c.fixRounds.set r.taskId (currentRound c₀ r + 1) }
        r.taskId = currentRound c₀ r + 1 := round_set _
    exact .denies hd (by omega) (by omega)

theorem passReview_counted {v : QaVerdict} (hd : d'.status = .qaVerified)
    (hc : c.fixRounds = c₀.fixRounds) (hlt : currentRound c₀ r < 3)
    (h : passReview api r agg d' v c = (.ok d, c')) : Counted c₀ c' r d := by
  have hround : round c r.taskId = round c₀ r.taskId := by rw [round, hc, ← round]
  rw [passReview] at h
  cases hv : agg.qaVerified c.identities c.receipts r.qa v with
  | error e => rw [hv] at h; cases h
  | ok agg' =>
    rw [hv, orRaise_ok] at h
    cases hm : agg'.markVerified c.identities r.qa with
    | error e => simp [setTask, hm] at h
    | ok agg'' =>
      simp only [setTask, hm, orRaise_ok] at h
      cases h
      exact .accepts hd hlt ((round_release _).trans hround)

theorem settleReview_counted {v : Option QaVerdict}
    (hd : (v.isSome ∧ d'.status = .qaVerified) ∨ v = none ∧ d'.status = .unverified)
    (hc : c.fixRounds = c₀.fixRounds) (hlt : currentRound c₀ r < 3)
    (h : settleReview api r agg (currentRound c₀ r) d' v c = (.ok d, c')) :
    Counted c₀ c' r d := by
  rcases hd with ⟨hv, hd⟩ | ⟨rfl, hd⟩
  · obtain ⟨v, rfl⟩ := Option.isSome_iff_exists.mp hv
    simp only [settleReview, hd] at h
    exact passReview_counted hd hc hlt h
  · exact failReview_counted hd h

end

theorem qaReview_counted {d : EvidenceDecision}
    (h : (c.qaReview api uuid4 r).1 = .ok d) : Counted c (c.qaReview api uuid4 r).2 r d := by
  generalize hc : c.qaReview api uuid4 r = result at h ⊢
  obtain ⟨_, c'⟩ := result
  subst h
  rw [qaReview, withTask] at hc
  cases hqa : c.identities.require r.qa .qa with
  | error e => rw [hqa] at hc; cases hc
  | ok _ =>
    rw [hqa, orRaise_ok] at hc
    cases hget : c.tasks.get? r.taskId with
    | none => rw [hget] at hc; cases hc
    | some agg =>
      rw [hget] at hc
      dsimp only at hc
      split at hc
      next dispatch hs hd =>
        change (if 3 ≤ currentRound c r then _ else _) = _ at hc
        split at hc
        next hcap =>
          cases hc
          exact .exhausts rfl hcap ((round_release _).trans (round_setTask _))
        next hcap =>
          have hnonneg : 0 ≤ currentRound c r := le_max_of_le_right (le_max_right _ _)
          cases hgate : QaEvidenceGate.create agg.task.acceptanceCriteria c.testHashes with
          | error e => rw [hgate] at hc; cases hc
          | ok gate =>
            rw [hgate, orRaise_ok] at hc
            rcases hcheck : gate.check c.receipts c.identities uuid4 r.qa r.evidence r.checkout
              agg.task.taskId dispatch.dispatchId agg.task.treeSha (currentRound c r) with
              ⟨decision, verdict, receipts⟩
            have hsettle : settleReview api r agg (currentRound c r) decision verdict
                { c with receipts } = (.ok d, c') := by
              rw [← hc]
              change _ = settleReview api r agg (currentRound c r) (gate.check _ _ _ _ _ _ _ _ _
                (currentRound c r)).1 (gate.check _ _ _ _ _ _ _ _ _ (currentRound c r)).2.1
                { c with receipts := (gate.check _ _ _ _ _ _ _ _ _ (currentRound c r)).2.2 }
              rw [hcheck]
            exact settleReview_counted (c := { c with receipts })
              (check_status hnonneg hcap hcheck) rfl (by omega) hsettle
      next => cases hc

/-! ## The count of a task over a call -/

theorem withTask_cases {α : Type} {P : Result (SupervisedCoordinator B) α → Prop} {missing : String}
    {k : TaskAggregate → Result (SupervisedCoordinator B) α} (hraise : ∀ e, P (.error e, c))
    (hgo : ∀ agg, c.tasks.get? id = some agg → P (k agg)) : P (c.withTask id missing k) := by
  rw [withTask]
  split
  next agg h => exact hgo agg h
  next => exact hraise _

@[simp] theorem releaseDispatch_fixRounds (id' : String) :
    (c.releaseDispatch api id').fixRounds = c.fixRounds := by
  rw [releaseDispatch]
  split <;> rfl

def Counts (c : SupervisedCoordinator B) (r : QaReview)
    (result : Result (SupervisedCoordinator B) EvidenceDecision) : Prop :=
  result.2.fixRounds = c.fixRounds ∨
    ∃ d n, result.1 = .ok d ∧ result.2.fixRounds = c.fixRounds.set r.taskId n

theorem settleReview_counts {currentRound : Int} {d : EvidenceDecision} {v : Option QaVerdict}
    {receipts : ReceiptIssuerRegistry} :
    Counts c r (settleReview api r agg currentRound d v { c with receipts }) := by
  unfold settleReview
  split
  next v _ _ =>
    rw [passReview]
    apply orRaise_cases
    · exact fun _ _ => .inl rfl
    · intro agg' _
      apply orRaise_cases
      · exact fun _ _ => .inl rfl
      · exact fun _ _ => .inl (releaseDispatch_fixRounds _)
  next =>
    rw [failReview]
    split
    next => exact .inr ⟨_, _, rfl, releaseDispatch_fixRounds _⟩
    next => exact .inr ⟨_, _, rfl, rfl⟩

theorem qaReview_counts (r : QaReview) : Counts c r (c.qaReview api uuid4 r) := by
  rw [qaReview]
  apply orRaise_cases
  · exact fun _ _ => .inl rfl
  · intro _ _
    apply withTask_cases
    · exact fun _ => .inl rfl
    · intro agg _
      split
      next =>
        dsimp only
        split
        next => exact .inl (releaseDispatch_fixRounds _)
        next =>
          apply orRaise_cases
          · exact fun _ _ => .inl rfl
          · exact fun _ _ => settleReview_counts
      next => exact .inl rfl

theorem round_qaReview (h : r.taskId = id → ∃ e, (c.qaReview api uuid4 r).1 = .error e) :
    round (c.qaReview api uuid4 r).2 id = round c id := by
  have hcounts : Counts c r (c.qaReview api uuid4 r) := qaReview_counts r
  rcases hcounts with hc | ⟨d, n, hd, hc⟩
  · rw [round, hc, ← round]
  · have hne : r.taskId ≠ id := by
      intro hid
      obtain ⟨e, he⟩ := h hid
      rw [he] at hd
      cases hd
    rw [round, hc, Dict.get?_set, if_neg hne, ← round]

section

variable {P : SupervisedCoordinator B → Prop} {pm : Principal}

theorem withTask_snd {α : Type} {missing : String}
    {k : TaskAggregate → Result (SupervisedCoordinator B) α} (hraise : P c)
    (hgo : ∀ agg, c.tasks.get? id = some agg → P (k agg).2) : P (c.withTask id missing k).2 :=
  withTask_cases (P := fun result => P result.2) (fun _ => hraise) hgo

def SameRounds (c c' : SupervisedCoordinator B) : Prop := c'.fixRounds = c.fixRounds

theorem begin_rounds {key : String} {tokens cost : Int} :
    SameRounds c (c.begin api uuid4 id pm key tokens cost).2 := by
  refine orRaise_snd rfl fun _ _ => withTask_snd rfl fun agg _ => ?_
  refine orRaise_snd rfl fun _ _ => orRaise_snd rfl fun d _ => ?_
  exact orRaise_snd rfl fun _ _ => rfl

theorem freeze_rounds : SameRounds c (c.freeze id pm).2 :=
  orRaise_snd rfl fun _ _ => withTask_snd rfl fun _ _ => orRaise_snd rfl fun _ _ => rfl

theorem reportProcessSucceeded_rounds {developer : Principal} {dispatchId tree : String} :
    SameRounds c (c.reportProcessSucceeded developer id dispatchId tree).2 :=
  orRaise_snd rfl fun _ _ => withTask_snd rfl fun _ _ => orRaise_snd rfl fun _ _ => rfl

theorem updateTree_rounds {tree : String} : SameRounds c (c.updateTree tree).2 :=
  orRaise_snd rfl fun _ _ => rfl

theorem reconcileRecovery_rounds {newTreeSha : Option String} :
    SameRounds c (c.reconcileRecovery api id pm newTreeSha).2 := by
  refine orRaise_snd rfl fun _ _ => withTask_snd rfl fun agg _ => orRaise_snd rfl fun _ _ => ?_
  exact orRaise_snd (releaseDispatch_fixRounds _) fun _ _ => releaseDispatch_fixRounds _

end

theorem perform_rounds {q : Call B} (hq : ∀ r, q ≠ .qaReview r) :
    SameRounds c (perform api uuid4 c q) := by
  cases q with
  | register => rw [perform]; split <;> rfl
  | issue => rw [perform]; split <;> rfl
  | createEvidence => rw [perform]; split <;> rfl
  | createQaVerdict => rw [perform]; split <;> rfl
  | freeze => exact freeze_rounds
  | begin => exact begin_rounds
  | reportProcessSucceeded => exact reportProcessSucceeded_rounds
  | releaseDispatch => exact releaseDispatch_fixRounds _
  | qaReview r => exact absurd rfl (hq r)
  | updateTree => exact updateTree_rounds
  | reconcileRecovery => exact reconcileRecovery_rounds
  | otherBudgetUse => rfl

/-! ## The decisions of a run -/

def decided (api : BudgetApi B) (uuid4 : Nat → String) (id : String) (s : State B) :
    Call B → List EvidenceDecision
  | .qaReview r =>
    if r.taskId = id then (s.coordinator.qaReview api (uuid4 s.calls) r).1.toOption.toList else []
  | _ => []

def Denied (d : EvidenceDecision) : Bool := d.status ≠ .qaVerified ∧ d.status ≠ .blocked

structure Sticky (ds : List EvidenceDecision) : Prop where
  stays : ds.Pairwise fun d d' => d.status = .blocked → d'.status ≠ .qaVerified
  few : ds.countP Denied ≤ 2

structure Tally (n : Int) (ds : List EvidenceDecision) : Prop extends Sticky ds where
  counted : (ds.countP Denied : Int) ≤ n
  full : ∀ d ∈ ds, d.status = .blocked → 3 ≤ n

def Reviewable (c : SupervisedCoordinator B) (r : QaReview) : Bool :=
  (c.identities.require r.qa .qa).isOk ∧
    (c.tasks.get? r.taskId).any fun agg => agg.state = .processSucceeded ∧ agg.activeDispatch.isSome

def NamesNoRound (id : String) (s : State B) : Call B → Prop
  | .qaReview r => r.taskId = id → Reviewable s.coordinator r = true →
      r.fixRound < 3 ∨ 3 ≤ round s.coordinator id
  | _ => True

theorem reviewable_of_ok {d : EvidenceDecision} (h : (c.qaReview api uuid4 r).1 = .ok d) :
    Reviewable c r = true := by
  rw [qaReview] at h
  rw [Reviewable]
  cases hqa : c.identities.require r.qa .qa with
  | error e => rw [hqa] at h; cases h
  | ok _ =>
    rw [hqa, orRaise_ok, withTask] at h
    cases hget : c.tasks.get? r.taskId with
    | none => rw [hget] at h; cases h
    | some agg =>
      rw [hget] at h
      dsimp only at h
      split at h
      next hs hd => simp [Except.isOk, Except.toBool, hs, hd]
      next => cases h

variable {c' : SupervisedCoordinator B} {d : EvidenceDecision} {ds : List EvidenceDecision}

theorem Tally.snoc {n n' : Int} (ht : Tally n ds) (hle : n ≤ n')
    (haccept : d.status = .qaVerified → n < 3) (hblock : d.status = .blocked → 3 ≤ n')
    (hdeny : d.status = .unverified → n < n' ∧ n' ≤ 2) : Tally n' (ds ++ [d]) := by
  have hcount : ((ds ++ [d]).countP Denied : Int) ≤ n' ∧ (ds ++ [d]).countP Denied ≤ 2 := by
    have hcounted := ht.counted
    have hfew := ht.few
    rw [List.countP_append, List.countP_singleton]
    cases hd : d.status with
    | unverified =>
      have := hdeny hd
      simp only [Denied, hd]
      grind
    | blocked => simpa [Denied, hd] using ⟨hcounted.trans hle, hfew⟩
    | qaVerified => simpa [Denied, hd] using ⟨hcounted.trans hle, hfew⟩
  refine ⟨⟨?_, hcount.2⟩, hcount.1, ?_⟩
  · simp only [List.pairwise_append, List.pairwise_singleton, List.mem_singleton]
    refine ⟨ht.stays, trivial, ?_⟩
    rintro d₁ h₁ _ rfl hb hv
    have hfull := ht.full d₁ h₁ hb
    have hlt := haccept hv
    omega
  · intro d₁ h₁ hb
    rcases List.mem_append.mp h₁ with h₁ | h₁
    · exact (ht.full d₁ h₁ hb).trans hle
    · cases List.mem_singleton.mp h₁
      exact hblock hb

theorem Tally.counted_snoc (ht : Tally (round c r.taskId) ds) (hc : Counted c c' r d)
    (hnames : r.fixRound < 3 ∨ 3 ≤ round c r.taskId) :
    Tally (round c' r.taskId) (ds ++ [d]) := by
  have hle : round c r.taskId ≤ currentRound c r := le_max_left _ _
  have hcap : 3 ≤ currentRound c r → 3 ≤ round c r.taskId := by
    intro h
    rw [currentRound] at h
    omega
  cases hc with
  | accepts hd hlt hr =>
    rw [hr]
    exact ht.snoc le_rfl (fun _ => by omega) (by simp [hd]) (by simp [hd])
  | exhausts hd hfull hr =>
    rw [hr]
    exact ht.snoc le_rfl (by simp [hd]) (fun _ => hcap hfull) (by simp [hd])
  | blocks hd hfull hle' => exact ht.snoc hle' (by simp [hd]) (fun _ => hfull) (by simp [hd])
  | denies hd hlt hfew =>
    exact ht.snoc hlt.le (by simp [hd]) (by simp [hd]) fun _ => ⟨hlt, hfew⟩

variable {uuid4 : Nat → String} {s t : State B} {q : Call B}

theorem tally_step (ht : Tally (round s.coordinator id) ds) (hq : NamesNoRound id s q)
    (h : step api uuid4 s q = some t) :
    Tally (round t.coordinator id) (ds ++ decided api uuid4 id s q) := by
  cases h
  have hsame (hq : ∀ r, q ≠ .qaReview r) :
      round (perform api (uuid4 s.calls) s.coordinator q) id = round s.coordinator id := by
    rw [round, perform_rounds hq, ← round]
  cases q with
  | qaReview r =>
    simp only [decided, perform]
    split
    next hid =>
      subst hid
      cases hd : (s.coordinator.qaReview api (uuid4 s.calls) r).1 with
      | error e =>
        rw [round_qaReview fun _ => ⟨e, hd⟩]
        simpa [Except.toOption] using ht
      | ok d => exact ht.counted_snoc (qaReview_counted hd) (hq rfl (reviewable_of_ok hd))
    next hid =>
      rw [round_qaReview fun h => absurd h hid]
      simpa using ht
  | _ =>
    rw [hsame (by simp)]
    simpa [decided] using ht

theorem initial_round (h : Initial s) : round s.coordinator id = 0 := by
  obtain ⟨run, tasks, dependencies, budget, hashes, hc, -⟩ := h
  simp only [create, bind_ok, require_ok] at hc
  obtain ⟨_, -, _, -, order, -, _, -, hc⟩ := hc
  rw [← Except.ok.inj hc, round]
  cases hget : Dict.get? (tasks.map fun p => (p.1, (0 : Int))) id with
  | none => rfl
  | some n =>
    obtain ⟨p, -, hp⟩ := List.mem_map.mp (Dict.mem_of_get? hget)
    cases hp
    rfl

/-- The cap on fix rounds is sticky, if the callers name no rounds that were not counted. -/
theorem fixRounds_sticky {s₀ : State B} (h₀ : Initial s₀) {ls : List (Call B)}
    (h : Path (step api uuid4) (NamesNoRound id) s₀ ls s) :
    Sticky (trace (step api uuid4) (decided api uuid4 id) s₀ ls) := by
  suffices ht : Tally (round s.coordinator id) (trace (step api uuid4) (decided api uuid4 id) s₀ ls)
    from ht.toSticky
  induction h with
  | refl => exact ⟨⟨.nil, by simp [trace]⟩, by simp [trace, initial_round h₀], by simp [trace]⟩
  | tail hp hq hs ih =>
    rw [trace_snoc _ hp]
    exact tally_step ih hq hs

/-! ## A round that its caller names -/

/-- Dispatches task A at position `n` of a run and has it reviewed without evidence. -/
def reviewCalls (n : Nat) (key : String) (fixRound : Int) : List (Call BudgetLedger) :=
  [.begin "A" (principal .pm) key 0 0,
    .reportProcessSucceeded (principal .developer) "A" (sampleUuid n) "t1",
    .qaReview ⟨principal .qa, "A", [], ⟨[], [], "t1", true, false⟩, fixRound⟩]

def repairCalls : List (Call BudgetLedger) :=
  let scope : Scope := ⟨"A", sampleUuid 5, "t1"⟩
  registerAll ++ .freeze "A" (principal .pm) :: reviewCalls 5 "key" 0 ++
    [.issue (principal .executor) scope 0, .createEvidence (sampleUuid 8) scope,
      .qaReview ⟨principal .qa, "A", [⟨sampleUuid 9, sampleUuid 8, "A", sampleUuid 5, "t1"⟩],
        ⟨["AC"], [("tests/t", .ofList (List.replicate 64 '0'))], "t1", true, false⟩, 0⟩]

/-- A review that is blocked by the round that it is called with, and one that passes. -/
def resetCalls : List (Call BudgetLedger) :=
  registerAll ++ .freeze "A" (principal .pm) :: reviewCalls 5 "key" 3 ++
    .freeze "A" (principal .pm) :: verifyCalls 9 "A" "t1" "again"

instance (s : State B) : (q : Call B) → Decidable (NamesNoRound id s q)
  | .qaReview r => inferInstanceAs (Decidable (r.taskId = id → Reviewable s.coordinator r = true →
      r.fixRound < 3 ∨ 3 ≤ round s.coordinator id))
  | .register .. | .issue .. | .createEvidence .. | .createQaVerdict .. | .freeze .. | .begin ..
  | .reportProcessSucceeded .. | .releaseDispatch .. | .updateTree .. | .reconcileRecovery ..
  | .otherBudgetUse .. => inferInstanceAs (Decidable True)

instance (ds : List EvidenceDecision) : Decidable (Sticky ds) :=
  decidable_of_iff (ds.Pairwise (fun d d' => d.status = .blocked → d'.status ≠ .qaVerified) ∧
    ds.countP Denied ≤ 2) ⟨fun h => ⟨h.1, h.2⟩, fun h => ⟨h.stays, h.few⟩⟩

def decisionsOf (ls : List (Call BudgetLedger)) (s₀ : State BudgetLedger) :
    List EvidenceDecision :=
  trace (step BudgetLedger.api sampleUuid) (decided BudgetLedger.api sampleUuid "A") s₀ ls

theorem fixRounds_repaired : ∃ s₀ s : State BudgetLedger, Initial s₀ ∧
    Path (step BudgetLedger.api sampleUuid) (NamesNoRound "A") s₀ repairCalls s ∧
    (decisionsOf repairCalls s₀).map (·.status) = [.unverified, .qaVerified] ∧
    Sticky (decisionsOf repairCalls s₀) := by
  have hrun : (sampleStart [("A", "t1", [])]).any (fun s₀ =>
      (exec (restrict (step BudgetLedger.api sampleUuid) (NamesNoRound "A")) s₀
        repairCalls).isSome ∧
      (decisionsOf repairCalls s₀).map (·.status) = [.unverified, .qaVerified]) = true := by
    decide +kernel
  obtain ⟨s₀, h₀, hs⟩ := (Option.any_eq_true _ _).mp hrun
  obtain ⟨hexec, hstatus⟩ := of_decide_eq_true hs
  have hpath := path_of_restrict (run_exec _ hexec)
  exact ⟨s₀, _, sampleStart_initial h₀, hpath, hstatus,
    fixRounds_sticky (sampleStart_initial h₀) hpath⟩

/-- The round that ended the task is forgotten when the task is frozen again. -/
theorem fixRounds_reset : ∃ s₀ s : State BudgetLedger, Initial s₀ ∧
    Library.Run (step BudgetLedger.api sampleUuid) s₀ resetCalls s ∧
    ¬ Sticky (decisionsOf resetCalls s₀) := by
  have hrun : (sampleStart [("A", "t1", [])]).any (fun s₀ =>
      (exec (step BudgetLedger.api sampleUuid) s₀ resetCalls).isSome ∧
      ¬ Sticky (decisionsOf resetCalls s₀)) = true := by decide +kernel
  obtain ⟨s₀, h₀, hs⟩ := (Option.any_eq_true _ _).mp hrun
  obtain ⟨hexec, hsticky⟩ := of_decide_eq_true hs
  exact ⟨s₀, _, sampleStart_initial h₀, run_exec _ hexec, hsticky⟩

end SubagentBridge.Team
