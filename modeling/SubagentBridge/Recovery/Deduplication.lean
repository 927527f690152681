import SubagentBridge.Recovery.ItemIdentity

/-! Deduplication: at most one live item per team and key. -/

namespace SubagentBridge.Supervisor

open Library Domain TeamStore

variable {F : Type}

def live (status : QueueTaskStatus) : Bool := status ∉ [.failed, .cancelled]

def sameKey (x y : Identity) : Bool :=
  x.teamId = y.teamId ∧ x.dedupKey = y.dedupKey ∧ (x.dedupKey.filter (· ≠ "")).isSome

def Deduplicated (db : Db F) : Prop :=
  ∀ d d' row row', db.queue.get? d = some row → db.queue.get? d' = some row' →
    sameKey (rowIdentity row) (rowIdentity row') = true → live row.status = true →
    live row'.status = true → d = d'

def moves (db : Db F) : Op F → Option (String × QueueTaskStatus)
  | .markTaskResuming d => if statusOf db d = some .cancelled then none else some (d, .running)
  | .saveQueueItem item => some (item.dispatchId, item.status)
  | .finalizeHandoff _ evidence status _ => status.map fun status => (evidence.dispatchId, status)
  | _ => none

def rival (db : Db F) (d : String) (row : QueueRow F) : Bool :=
  db.queue.any fun p => p.1 ≠ d && sameKey (rowIdentity row) (rowIdentity p.2) && live p.2.status

def revivesAlone (db : Db F) (o : Op F) : Bool :=
  match moves db o with
  | none => true
  | some (d, status) => match db.queue.get? d with
    | none => true
    | some row => live row.status || !live status || !rival db d row

theorem deduplicated_of_empty {db : Db F} (h : db.queue = []) : Deduplicated db := by
  intro d d' row row' hrow
  rw [h] at hrow
  cases hrow

theorem no_rival {db : Db F} {o : Op F} {d : String} {status : QueueTaskStatus} {row : QueueRow F}
    (hg : revivesAlone db o = true) (hm : moves db o = some (d, status))
    (hrow : db.queue.get? d = some row) (hl : live status = true)
    (hdead : live row.status = false) :
    rival db d row = false := by
  rw [revivesAlone, hm] at hg
  simpa [hrow, hl, hdead] using hg

theorem sameKey_symm {x y : Identity} (h : sameKey x y = true) : sameKey y x = true := by
  obtain ⟨ht, hk, hs⟩ := of_decide_eq_true h
  exact decide_eq_true ⟨ht.symm, hk.symm, hk ▸ hs⟩

theorem not_sameKey_of_rival {db : Db F} {d d' : String} {row row' : QueueRow F}
    (h : rival db d row = false) (hrow : db.queue.get? d' = some row') (hd : d' ≠ d)
    (hl : live row'.status = true) : sameKey (rowIdentity row) (rowIdentity row') = false := by
  by_contra hs
  have hs : sameKey (rowIdentity row) (rowIdentity row') = true := Bool.eq_true_of_not_eq_false hs
  have hany := List.any_eq_false.mp h _ (Dict.mem_of_get? hrow)
  simp [hd, hs, hl] at hany

theorem Deduplicated.set {db db' : Db F} {d : String} {row : QueueRow F} (hd : Deduplicated db)
    (hset : db'.queue = db.queue.set d row)
    (halone : live row.status = true → ∀ d' row', db.queue.get? d' = some row' → d' ≠ d →
      live row'.status = true → sameKey (rowIdentity row) (rowIdentity row') = false) :
    Deduplicated db' := by
  intro d₁ d₂ row₁ row₂ h₁ h₂ hk hl₁ hl₂
  rw [hset, Dict.get?_set] at h₁ h₂
  split at h₁ <;> split at h₂
  next hd₁ hd₂ => exact hd₁.symm.trans hd₂
  next hd₁ hd₂ =>
    obtain rfl := Option.some.inj h₁
    rw [halone hl₁ d₂ row₂ h₂ (Ne.symm hd₂) hl₂] at hk
    cases hk
  next hd₁ hd₂ =>
    obtain rfl := Option.some.inj h₂
    have hk := sameKey_symm hk
    rw [halone hl₂ d₁ row₁ h₁ (Ne.symm hd₁) hl₁] at hk
    cases hk
  next hd₁ hd₂ => exact hd d₁ d₂ row₁ row₂ h₁ h₂ hk hl₁ hl₂

variable [FloatText F] [LinearOrder F] {repr : String → String} {w : World F} {db : Db F} {o : Op F}
variable {d : String} {q : Request F} {h : History F} {ms : List (Request F × History F)}

omit [FloatText F] in
theorem not_live_of_duplicateOf {teamId key : String} (hnone : db.duplicateOf teamId key = none)
    {row : QueueRow F} (hrow : db.queue.get? d = some row) (ht : row.teamId = teamId)
    (hk : row.dedupKey = some key) : live row.status = false := by
  by_contra hl
  have hl : live row.status = true := Bool.eq_true_of_not_eq_false hl
  rw [Db.duplicateOf, List.head?_eq_none_iff] at hnone
  have hmem : row ∈ (db.queue.map (·.2)).filter fun row => row.teamId = teamId ∧
      row.dedupKey = some key ∧ row.status ∉ [.failed, .cancelled] :=
    List.mem_filter.mpr ⟨List.mem_map.mpr ⟨_, Dict.mem_of_get? hrow, rfl⟩,
      decide_eq_true ⟨ht, hk, of_decide_eq_true hl⟩⟩
  rw [← List.mem_insertionSort fun a b : QueueRow F => b.createdAt ≤ a.createdAt, hnone] at hmem
  cases hmem

theorem deduplicated_exec (hd : Deduplicated db) (ha : Allowed q h o)
    (ht : ∀ d x, Tells h d x → Has db d x) (hg : revivesAlone db o = true) :
    Deduplicated (exec repr o w db).2 := by
  rcases exec_changes repr o w db with hsame | ⟨d, row', hset, hc⟩
  · intro d d' row row' h₁ h₂
    rw [hsame] at h₁ h₂
    exact hd d d' row row' h₁ h₂
  refine hd.set hset fun hl d' other hother hne hlo => ?_
  have known : ∀ row, db.queue.get? d = some row →
    (live row.status = false → rival db d row = false) →
      sameKey (rowIdentity row') (rowIdentity other) = false := by
    intro row hrow halone
    rw [hc.identity hrow ha (ht d)]
    cases hlive : live row.status with
    | true =>
      by_contra hk
      exact hne (hd d' d other row hother hrow
        (sameKey_symm (Bool.eq_true_of_not_eq_false hk)) hlo hlive)
    | false => exact not_sameKey_of_rival (halone hlive) hother hne hlo
  generalize (exec repr o w db).1 = r at hc
  cases hc with
  | inserted item _ _ hdup =>
    by_contra hk
    obtain ⟨hteam, hkey, hsome⟩ := of_decide_eq_true (Bool.eq_true_of_not_eq_false hk)
    obtain ⟨key, hkey'⟩ := Option.isSome_iff_exists.mp hsome
    obtain ⟨hitem, -⟩ := Option.filter_eq_some_iff.mp hkey'
    have hdup' : db.duplicateOf item.teamId key = none := by
      change Option.filter _ item.dedupKey = _ at hkey'
      rwa [hkey'] at hdup
    rw [not_live_of_duplicateOf hdup' hother hteam.symm (hkey.symm.trans hitem)] at hlo
    cases hlo
  | created item hd hnew =>
    obtain ⟨s, hs, -⟩ := ha
    rw [hd] at hs
    obtain ⟨row, hrow, -⟩ := ht _ _ (tells_of_snapshot hs)
    cases hnew.symm.trans hrow
  | steered hrow =>
    exact known _ hrow fun hdead => by cases hdead.symm.trans hl
  | cancelled => cases hl
  | marked r hrow hst =>
    have hm : moves db (.markTaskResuming d) = some (d, .running) := by
      rw [moves, statusOf_of_get? hrow]
      exact if_neg fun he => hst (by simp [Option.some.inj he])
    exact known _ hrow (no_rival hg hm hrow rfl)
  | saved item hd hrow =>
    subst hd
    exact known _ hrow (no_rival hg rfl hrow hl)
  | finalized hd hrow =>
    subst hd
    exact known _ hrow (no_rival hg rfl hrow hl)

def liveItems (db : Db F) (teamId key : String) : List String :=
  Dict.keys (db.queue.filter fun p =>
    p.2.teamId = teamId ∧ p.2.dedupKey = some key ∧ live p.2.status = true)

theorem length_le_one {α : Type} {xs : List α} (hn : xs.Nodup) (h : ∀ x ∈ xs, ∀ y ∈ xs, x = y) :
    xs.length ≤ 1 := by
  match xs with
  | [] => simp
  | [x] => simp
  | x :: y :: xs =>
    have hxy := h x (by simp) y (by simp)
    simp [hxy] at hn

omit [FloatText F] [LinearOrder F] in
theorem Deduplicated.liveItems {teamId key : String} (hd : Deduplicated db) (hk : Keyed db)
    (hkey : key ≠ "") : (liveItems db teamId key).length ≤ 1 := by
  refine length_le_one (hk.nodup.sublist (List.filter_sublist.map _)) fun d hd₁ d' hd₂ => ?_
  obtain ⟨⟨d, row⟩, hp, rfl⟩ := List.mem_map.mp hd₁
  obtain ⟨⟨d', row'⟩, hp', rfl⟩ := List.mem_map.mp hd₂
  obtain ⟨hmem, hrow⟩ := List.mem_filter.mp hp
  obtain ⟨hmem', hrow'⟩ := List.mem_filter.mp hp'
  obtain ⟨ht, hkey₁, hl⟩ := of_decide_eq_true hrow
  obtain ⟨ht', hkey₂, hl'⟩ := of_decide_eq_true hrow'
  refine hd d d' row row' (Dict.get?_of_mem hk.nodup hmem)
    (Dict.get?_of_mem hk.nodup hmem') ?_ hl hl'
  refine decide_eq_true ⟨ht.trans ht'.symm, hkey₁.trans hkey₂.symm, ?_⟩
  change row.dedupKey = some key at hkey₁
  simp [rowIdentity, hkey₁, Option.filter, hkey]

section Runs

variable [FloatInt F] {B : Builtins F} {s₀ : Db F} {c : Calls B}
variable {ls : List (supervisors B).Label}

abbrev allReviveAlone (c : Calls B) : (supervisors B).Label → Bool :=
  guarding (fun c _ _ o => revivesAlone c.state o) c

/-- As long as failed and cancelled items become live again only without a live rival, at most
one item of a team and a key is live. -/
theorem at_most_one_live (hempty : s₀.queue = [])
    (hrun : Path (Step B) (fun c l => allReviveAlone c l = true) (start B s₀) ls c)
    {teamId key : String} (hkey : key ≠ "") : (liveItems c.state teamId key).length ≤ 1 := by
  have hk : Keyed s₀ := ⟨by simp [hempty, Dict.keys], by simp [hempty]⟩
  have hboth : Tracked c.state (records c) ∧ Deduplicated c.state := by
    refine run_invariant (J := fun db ms => Tracked db ms ∧ Deduplicated db) hk
      ⟨tracked_nil, deduplicated_of_empty hempty⟩ (fun db ms q hJ => ⟨hJ.1.start q, hJ.2⟩) ?_ hrun
    intro c i w c' q o k h hk hG hact ⟨ht, hd⟩ ha
    have hi := records_call hact.call
    exact ⟨ht.act hk hi ha, deduplicated_exec hd ha
      (fun d => ht.items _ (List.mem_of_getElem? hi) d) (guarding_act hact hG)⟩
  exact hboth.2.liveItems (keyed_run hk hrun) hkey

def numberedWorld (time : Int) : World Int :=
  { sampleWorld time with answer := fun
      | .uuidHex => .ok (toString time)
      | o => sampleAnswer time o }

def numbered (i n : Nat) (time : Int) : List SampleLabel :=
  List.replicate n (.act i (numberedWorld time))

def sampleDispatch : SampleLabel := ask (.dispatchTask "lead" "worker" "task" [] (some "k") 0)

def replaced : List SampleLabel :=
  sampleDispatch :: numbered 0 6 1 ++ (ask (.reconcileTeam "t" true) :: numbered 1 6 2) ++
    (sampleDispatch :: numbered 2 6 3)

theorem live_twice : ∃ c : Calls sampleBuiltins,
    Run (Step sampleBuiltins) (start sampleBuiltins (sampleDb []))
      (replaced ++ ask (.reconcileAmbiguous "dsp-1" "RETRY" "") :: numbered 3 4 4) c ∧
    liveItems c.state "t" "k" = ["dsp-1", "dsp-3"] := by
  have h : (Library.exec (Step sampleBuiltins) (start sampleBuiltins (sampleDb []))
      (replaced ++ ask (.reconcileAmbiguous "dsp-1" "RETRY" "") :: numbered 3 4 4)).any
      (fun c => liveItems c.state "t" "k" = ["dsp-1", "dsp-3"]) = true := by
    decide +kernel
  obtain ⟨c, hrun, hc⟩ := run_of_any h
  exact ⟨c, hrun, of_decide_eq_true hc⟩

theorem at_most_one_live_replaced : ∃ c : Calls sampleBuiltins,
    liveItems c.state "t" "k" = ["dsp-3"] ∧ (liveItems c.state "t" "k").length ≤ 1 := by
  have h : (Library.exec (restrict (Step sampleBuiltins) fun c l => allReviveAlone c l = true)
      (start sampleBuiltins (sampleDb [])) replaced).any
      (fun c => liveItems c.state "t" "k" = ["dsp-3"]) = true := by
    decide +kernel
  obtain ⟨c, hrun, hc⟩ := run_of_any h
  exact ⟨c, of_decide_eq_true hc, at_most_one_live rfl (path_of_restrict hrun) (by decide)⟩

end Runs

end SubagentBridge.Supervisor
