import SubagentBridge.Recovery.ResumePlan

/-! What stands for the steps of an item that a resumption completes. -/

namespace SubagentBridge.Supervisor

open Library Domain TeamStore

variable {F : Type} {B : Builtins F}

theorem pyEq_symm [FloatText F] [FloatInt F] {v w : Json F} (h : v.pyEq w = true) :
    w.pyEq v = true :=
  decide_eq_true (of_decide_eq_true h).symm

theorem pyEq_trans [FloatText F] [FloatInt F] {u v w : Json F} (h : u.pyEq v = true)
    (h' : v.pyEq w = true) : u.pyEq w = true :=
  decide_eq_true ((of_decide_eq_true h).trans (of_decide_eq_true h'))

/-! ## Finished work -/

section Property

variable [FloatText F] [FloatInt F]
variable (V : View F) (cps : List (WorkerCheckpoint F)) (R : Resumption F) (base : QueueItem F)

/-- The declared artifact, if there is one, exists and has a positive size. -/
def Intact (artifact : Json F) : Prop :=
  artifact.truthy → ∃ path ∈ nonempty R.worktreePath, V.kept path artifact

/-- The checkpoint is one of the stored ones, bound to the same team, dispatch, task and
commit. -/
def Binding (cp : WorkerCheckpoint F) : Prop :=
  cp ∈ cps ∧ boundTo base R.session R.currentCommit cp

/-- A bound checkpoint lists the step under its name, or under its number if it has none. -/
def OnRecord (i : Nat) : Prop :=
  ∃ cp, Binding cps R base cp ∧
    isIn (stepName ((Owner.step i).dict base) (i + 1)) ((listed cp).iterate.getD [])

def Declared (steps : List (Dict String (Json F))) (name : String) : Prop :=
  .str name ∈ (expectedArtifacts base).iterate.getD [] ∨
    ∃ step ∈ steps, (artifactOf step).truthy ∧ (artifactOf step).text = some name

def Evidence (steps : List (Dict String (Json F))) : Prop :=
  (∃ path ∈ nonempty R.worktreePath, ∃ name, Declared base steps name ∧ V.there (path.join name)) ∨
    ∃ cp, Binding cps R base cp ∧ (fetch cp.contextSnapshot "receipt_id").truthy

/-- The worker has completed the work in the dict, which it was sent but for the keys. -/
def Executed (keys : List String) (step : Dict String (Json F)) (s : Sent F) : Prop :=
  s.completed ∧ ∀ key ∉ keys, s.payload.get? key = step.get? key

/-- Each step was dispatched and completed, or a checkpoint lists it and its artifact is there;
and without any dispatch there is some evidence. -/
def Proven (h : History F) : Prop :=
  match fetch base.payload "steps" with
  | .arr steps => ∃ dicts, steps.mapM Json.members = some dicts ∧
      (∃ order : List Nat, order.Nodup ∧
        List.Forall₂ (fun s i =>
          Executed ["approval_action_id", "workspace_path"] ((Owner.step i).dict base) s)
          (sent h) order ∧
        ∀ i < dicts.length, i ∈ order ∨
          OnRecord cps R base i ∧ Intact V R (artifactOf ((Owner.step i).dict base))) ∧
      (sent h = [] → Evidence V cps R base dicts)
  | _ =>
    ((∃ s, sent h = [s] ∧ Executed ["approval_action_id", "workspace_path", "steps",
        "_unverified_completed_steps"] base.payload s) ∨
      (∃ cp, Binding cps R base cp ∧ (fetch cp.contextSnapshot "completed").truthy) ∧
        ((expectedArtifacts base).truthy → ∃ path ∈ nonempty R.worktreePath,
          ∀ art ∈ (expectedArtifacts base).iterate.getD [], V.kept path art)) ∧
    (sent h = [] → Evidence V cps R base [])

/-- A list without steps comes with evidence; and a step that the plan leaves out has a name, or
its number is listed, and it is the first step of its name, or has its own artifact. -/
def Accountable : Prop :=
  match fetch base.payload "steps" with
  | .arr steps => ∀ dicts, steps.mapM Json.members = some dicts →
      (dicts = [] → Evidence V cps R base []) ∧
      ∀ i < dicts.length, i ∉ todo V R base dicts →
        ((((Owner.step i).dict base).get? "name").isSome ∨ OnRecord cps R base i) ∧
        ((∀ j < i, (nameOf base j).pyEq (nameOf base i) = false) ∨
          Intact V R (artifactOf ((Owner.step i).dict base)))
  | _ => True

end Property

/-! ## The dispatches of a history -/

section Sent

variable {h : History F}

theorem sent_split {k : Nat} {s : Sent F} (hs : (sent h)[k]? = some s) : ∃ h₁ h₂,
    h = h₁ ++ ⟨.dispatchTaskToWorker s.workerId s.taskId s.payload, .ok s.result⟩ :: h₂ ∧
      (sent h₁).length = k := by
  induction h generalizing k with
  | nil => cases hs
  | cons e h ih =>
    rw [sent, List.filterMap_cons] at hs
    split at hs
    next hnone =>
      obtain ⟨h₁, h₂, rfl, hlen⟩ := ih hs
      refine ⟨e :: h₁, h₂, rfl, ?_⟩
      rw [sent, List.filterMap_cons, hnone, ← sent, hlen]
    next s' hsome =>
      cases k with
      | zero =>
        obtain rfl := Option.some.inj hs
        split at hsome
        next workerId taskId payload result =>
          obtain rfl := Option.some.inj hsome
          exact ⟨[], h, rfl, rfl⟩
        next => cases hsome
      | succ k =>
        obtain ⟨h₁, h₂, rfl, hlen⟩ := ih hs
        refine ⟨e :: h₁, h₂, rfl, ?_⟩
        rw [sent, List.filterMap_cons, hsome, ← sent, List.length_cons, hlen]

end Sent

/-! ## What the plan leaves out -/

section Plan

variable [FloatText F] [FloatInt F] {V : View F} {cps : List (WorkerCheckpoint F)}
variable {R : Resumption F} {base : QueueItem F} {steps : List (Json F)}
variable {dicts : List (Dict String (Json F))} {i j : Nat}

structure Reading (base : QueueItem F) (steps : List (Json F))
    (dicts : List (Dict String (Json F))) : Prop where
  isList : fetch base.payload "steps" = .arr steps
  areDicts : steps.mapM Json.members = some dicts

omit [FloatText F] [FloatInt F] in
theorem members_mapM {xs : List (Json F)} {ds : List (Dict String (Json F))}
    (h : xs.mapM Json.members = some ds) : xs = ds.map .obj := by
  induction xs generalizing ds with
  | nil =>
    cases h
    rfl
  | cons x xs ih =>
    rw [List.mapM_cons] at h
    cases x with
    | obj kxs =>
      simp only [Json.members, Option.bind_eq_bind, Option.bind_some] at h
      cases hxs : xs.mapM Json.members with
      | none => simp [hxs] at h
      | some ds' =>
        simp only [hxs, Option.bind_some] at h
        cases h
        rw [ih hxs, List.map_cons]
    | _ => cases h

omit [FloatText F] [FloatInt F] in
theorem Reading.dict (hr : Reading base steps dicts) (i : Nat) :
    (Owner.step i).dict base = dicts[i]?.getD [] := by
  have hget : base.payload.get? "steps" = some (.arr steps) := by
    have h := hr.isList
    rw [fetch] at h
    cases hg : base.payload.get? "steps" with
    | none => rw [hg] at h; cases h
    | some v => rw [hg] at h; exact congrArg some h
  rw [Owner.dict, stepsOf, hget]
  dsimp only
  rw [members_mapM hr.areDicts]
  cases hi : dicts[i]? <;> simp [hi, Json.members]

theorem stepNamed_first {name : Json F} {ds : List (Dict String (Json F))}
    (hi : (fetch (ds[i]?.getD []) "name").pyEq name = true) (hlt : i < ds.length)
    (hfirst : ∀ j < i, (fetch (ds[j]?.getD []) "name").pyEq name = false) :
    stepNamed name (ds.map .obj) = .ok (some (ds[i]?.getD [])) := by
  induction ds generalizing i with
  | nil => cases hlt
  | cons step ds ih =>
    rw [List.map_cons, stepNamed]
    simp only [Json.members]
    cases i with
    | zero => rw [if_pos (by simpa using hi)]; rfl
    | succ i =>
      rw [if_neg (by simpa using hfirst 0 i.succ_pos)]
      exact ih (by simpa using hi) (by simpa using hlt)
        fun j hj => by simpa using hfirst (j + 1) (Nat.succ_lt_succ hj)

theorem skipped_of_not_mem (hi : i < dicts.length) (hnot : i ∉ todo V R base dicts) :
    isIn (nameOf base i) (V.completed R (fetch base.payload "steps")) = true := by
  by_contra hisIn
  have hun : i ∈ undone base dicts.length (V.completed R (fetch base.payload "steps")) :=
    List.mem_filter.mpr ⟨List.mem_range.mpr hi, by simpa using hisIn⟩
  rw [todo, if_neg (List.ne_nil_of_mem hun)] at hnot
  exact hnot hun

theorem mem_todo_congr (hname : nameOf base i = nameOf base j) (hi : i < dicts.length)
    (hj : j ∈ todo V R base dicts) : i ∈ todo V R base dicts := by
  rw [todo] at hj ⊢
  split at hj
  next hnone =>
    split at hj
    next hun => rw [if_pos hnone, if_pos hun]; exact List.mem_range.mpr hi
    next => cases hj
  next hsome =>
    rw [if_neg hsome]
    refine List.mem_filter.mpr ⟨List.mem_range.mpr hi, ?_⟩
    rw [hname]
    exact (List.mem_filter.mp hj).2

theorem skipped_listed {name : Json F}
    (h : isIn name (V.completed R (fetch base.payload "steps")) = true) :
    ∃ cp path, cp ∈ R.latestCp ∧ path ∈ nonempty R.worktreePath ∧
      isIn name ((listed cp).iterate.getD []) = true ∧
      ∃ name', name.pyEq name' = true ∧ V.verified path
        ((candidates (fetch base.payload "steps")).iterate.getD []) name' = true := by
  obtain ⟨name', hmem, heq⟩ := List.any_eq_true.mp h
  rw [View.completed] at hmem
  split at hmem
  next cp path hcp hpath =>
    obtain ⟨hlisted, hverified⟩ := List.mem_filter.mp hmem
    exact ⟨cp, path, hcp, (Option.filter_eq_some_iff.mp hpath).1,
      List.any_eq_true.mpr ⟨name', hlisted, heq⟩, name', heq, hverified⟩
  next => cases hmem

omit [FloatText F] in
theorem Reading.candidates (hr : Reading base steps dicts) :
    (candidates (fetch base.payload "steps")).iterate.getD [] = dicts.map .obj := by
  rw [hr.isList, ← members_mapM hr.areDicts]
  cases steps <;> rfl

theorem Reading.intact (hr : Reading base steps dicts) (hi : i < dicts.length)
    (hskipped : isIn (nameOf base i) (V.completed R (fetch base.payload "steps")) = true)
    (hfirst : ∀ j < i, (nameOf base j).pyEq (nameOf base i) = false) :
    Intact V R (artifactOf ((Owner.step i).dict base)) := by
  obtain ⟨cp, path, -, hpath, -, name, heq, hverified⟩ := skipped_listed hskipped
  intro hdeclared
  refine ⟨path, hpath, ?_⟩
  have hmeant : View.meant (dicts.map .obj) name = (Owner.step i).dict base := by
    rw [View.meant, hr.dict, stepNamed_first (i := i) (by rwa [nameOf, hr.dict] at heq) hi]
    · rfl
    · intro j hj
      by_contra hne
      have hj' : (nameOf base j).pyEq name = true := by
        rw [nameOf, hr.dict]
        simpa using hne
      have h := pyEq_trans hj' (pyEq_symm heq)
      rw [hfirst j hj] at h
      cases h
  rw [hr.candidates, View.verified, hmeant, hdeclared] at hverified
  exact hverified

omit [FloatText F] [FloatInt F] in
theorem kept_there {path : PurePath} {art : Json F} (h : V.kept path art = true) :
    ∃ name, art = .str name ∧ V.there (path.join name) = true := by
  cases art with
  | str name => exact ⟨name, rfl, (Bool.and_eq_true_iff.mp h).1⟩
  | _ => cases h

omit [FloatText F] in
theorem evidence_of_kept {path : PurePath} (hpath : path ∈ nonempty R.worktreePath)
    (hexpected : (expectedArtifacts base).truthy = true)
    (hiter : (expectedArtifacts base).iterate.isSome)
    (hkept : ((expectedArtifacts base).iterate.getD []).all (V.kept path) = true) :
    Evidence V cps R base dicts := by
  have hne : (expectedArtifacts base).iterate.getD [] ≠ [] := by
    intro hnil
    cases he : expectedArtifacts base with
    | arr xs => simp_all [Json.truthy, Json.iterate]
    | obj kxs => simp_all [Json.truthy, Json.iterate]
    | str text => simp_all [Json.truthy, Json.iterate]
    | _ => simp [he, Json.iterate] at hiter
  obtain ⟨art, hart⟩ := List.exists_mem_of_ne_nil _ hne
  obtain ⟨name, rfl, hthere⟩ := kept_there (List.all_eq_true.mp hkept art hart)
  exact .inl ⟨path, hpath, name, .inl hart, hthere⟩

theorem todo_nil (hdicts : dicts ≠ []) (hnone : todo V R base dicts = []) :
    (∀ i < dicts.length, i ∉ todo V R base dicts) ∧
      V.unproven R (expectedArtifacts base) dicts = false := by
  refine ⟨fun i _ => by simp [hnone], ?_⟩
  by_contra hun
  rw [todo] at hnone
  split at hnone
  next =>
    rw [if_pos (by simpa using hun)] at hnone
    exact hdicts (by simpa using hnone)
  next hsome => exact hsome hnone

theorem evidence_of_finished (hdicts : dicts ≠ []) (hnone : todo V R base dicts = [])
    (hlegible : LegibleEvidence V R (expectedArtifacts base) dicts) :
    Evidence V cps R base dicts := by
  obtain ⟨hskipped, hproven⟩ := todo_nil hdicts hnone
  have hlt := List.length_pos_iff.mpr hdicts
  obtain ⟨cp, path, -, hpath, -⟩ := skipped_listed (skipped_of_not_mem hlt (hskipped 0 hlt))
  have hpath := hpath
  rw [View.unproven, Option.mem_def.mp hpath] at hproven
  have hlegible := hlegible path hpath
  cases hexpected : (expectedArtifacts base).truthy with
  | true =>
    rw [hexpected] at hproven hlegible
    exact evidence_of_kept hpath hexpected hlegible.1 (by simpa using hproven)
  | false =>
    rw [hexpected] at hproven
    have hleaves : dicts.any (V.leaves path) = true := by simpa [hdicts] using hproven
    obtain ⟨step, hstep, hleaves⟩ := List.any_eq_true.mp hleaves
    obtain ⟨hart, htext⟩ := Bool.and_eq_true_iff.mp hleaves
    obtain ⟨name, hname, hthere⟩ := (Option.any_eq_true _ _).mp htext
    exact .inl ⟨path, hpath, name, .inr ⟨step, hstep, hart, hname⟩, hthere⟩

/-! ## The dispatches and the plan -/

variable {h : History F}

def AllDue (B : Builtins F) (V : View F) (R : Resumption F) (base : QueueItem F)
    (h : History F) : Prop :=
  ∀ k s, (sent h)[k]? = some s → ∃ h', (sent h').length = k ∧
    Due B V R base h' s.workerId s.taskId s.payload

omit [FloatText F] [FloatInt F] in
theorem withWorkspace_get? (R : Resumption F) (payload : Dict String (Json F)) {key : String}
    (hkey : key ≠ "workspace_path") : (withWorkspace R payload).get? key = payload.get? key := by
  rw [withWorkspace]
  split
  next => rfl
  next => exact (Dict.get?_set ..).trans (if_neg hkey.symm)

theorem Reading.executed (hr : Reading base steps dicts) (hdue : AllDue B V R base h)
    (hdone : ∀ s ∈ sent h, s.completed) (hlen : (sent h).length = (todo V R base dicts).length) :
    List.Forall₂ (fun s i =>
      Executed ["approval_action_id", "workspace_path"] ((Owner.step i).dict base) s)
      (sent h) (todo V R base dicts) := by
  rw [List.forall₂_iff_get]
  refine ⟨hlen, fun k hk hk' => ⟨hdone _ (List.getElem_mem _), fun key hkey => ?_⟩⟩
  obtain ⟨h', rfl, -, -, item, hc, hitem⟩ := hdue k _ (List.getElem?_eq_getElem hk)
  rw [hr.isList] at hitem
  obtain ⟨dicts', commands, i, hdicts, hi, -, -, -, hpayload⟩ := hitem
  obtain rfl := Option.some.inj (hr.areDicts.symm.trans hdicts)
  obtain rfl := Option.some.inj ((List.getElem?_eq_getElem hk').symm.trans hi)
  simp only [List.mem_cons, List.not_mem_nil, or_false, not_or] at hkey
  simp only [List.get_eq_getElem, hpayload]
  rw [withWorkspace_get? R _ hkey.2]
  exact hc.step _ key hkey.1

def Latest (cps : List (WorkerCheckpoint F)) (R : Resumption F) (base : QueueItem F) : Prop :=
  ∀ cp ∈ R.latestCp, Binding cps R base cp

theorem Reading.proven_iff (hr : Reading base steps dicts) (hlatest : Latest cps R base)
    (hdue : AllDue B V R base h) (hfin : Finished V R base h) :
    Proven V cps R base h ↔ Accountable V cps R base := by
  rw [Finished, hr.isList] at hfin
  obtain ⟨hdone, dicts', hdicts, hlen, hlegible⟩ := hfin
  obtain rfl := Option.some.inj (hr.areDicts.symm.trans hdicts)
  have hexec := hr.executed hdue hdone hlen
  rw [Proven, Accountable, hr.isList]
  constructor
  · rintro ⟨dicts', hdicts', ⟨order, -, horder, hall⟩, hevidence⟩ dicts'' hdicts''
    obtain rfl := Option.some.inj (hdicts.symm.trans hdicts')
    obtain rfl := Option.some.inj (hdicts.symm.trans hdicts'')
    refine ⟨fun hnil => ?_, fun i hi hnot => ?_⟩
    · subst hnil
      apply hevidence
      rw [← List.length_eq_zero_iff, hlen]
      simp [todo, undone]
    · obtain hmem | ⟨hlisted, hintact⟩ := hall i hi
      · obtain ⟨k, hk, rfl⟩ := List.mem_iff_getElem.mp hmem
        have hk' : k < (sent h).length := horder.length_eq ▸ hk
        have hki := (List.forall₂_iff_get.mp horder).2 k hk' hk
        have hkj := (List.forall₂_iff_get.mp hexec).2 k hk' (hlen ▸ hk')
        refine absurd (mem_todo_congr ?_ hi (List.getElem_mem (hlen ▸ hk'))) hnot
        have hname := (hki.2 "name" (by decide)).symm.trans (hkj.2 "name" (by decide))
        exact congrArg (·.getD .null) hname
      · exact ⟨.inr hlisted, .inr hintact⟩
  · intro hall
    obtain ⟨hempty, hskipped⟩ := hall dicts hdicts
    refine ⟨dicts, hdicts, ⟨_, nodup_todo V R base dicts, hexec, fun i hi => ?_⟩, fun hnone => ?_⟩
    · by_cases hmem : i ∈ todo V R base dicts
      · exact .inl hmem
      · obtain ⟨hnamed, hart⟩ := hskipped i hi hmem
        have hname := skipped_of_not_mem hi hmem
        refine .inr ⟨?_, hart.elim (hr.intact hi hname) id⟩
        obtain hnamed | hlisted := hnamed
        · obtain ⟨cp, path, hcp, -, hlisted, -⟩ := skipped_listed hname
          refine ⟨cp, hlatest cp hcp, ?_⟩
          obtain ⟨v, hv⟩ := Option.isSome_iff_exists.mp hnamed
          rw [nameOf, fetch, hv] at hlisted
          rw [stepName, hv]
          exact hlisted
        · exact hlisted
    · by_cases hdicts : dicts = []
      · subst hdicts
        exact hempty rfl
      · have hnil : todo V R base dicts = [] := by
          rw [← List.length_eq_zero_iff, ← hlen, hnone, List.length_nil]
        exact evidence_of_finished hdicts hnil (hlegible hnil)

omit [FloatText F] in
theorem proven_before (hlatest : Latest cps R base)
    (hlegible : LegibleCompletion V R (expectedArtifacts base))
    (hbefore : V.provenBefore R (expectedArtifacts base) = true)
    (hplace : ∀ cp ∈ R.latestCp, (nonempty R.worktreePath).isSome) :
    ((∃ cp, Binding cps R base cp ∧ (fetch cp.contextSnapshot "completed").truthy) ∧
      ((expectedArtifacts base).truthy → ∃ path ∈ nonempty R.worktreePath,
        ∀ art ∈ (expectedArtifacts base).iterate.getD [], V.kept path art)) ∧
    Evidence V cps R base [] := by
  rw [View.provenBefore] at hbefore
  split at hbefore
  next => cases hbefore
  next cp hcp =>
    obtain ⟨hmem, hcompleted⟩ := Option.filter_eq_some_iff.mp hcp
    obtain ⟨path, hpath⟩ := Option.isSome_iff_exists.mp (hplace cp hmem)
    have hbinding : ∃ cp, Binding cps R base cp ∧ (fetch cp.contextSnapshot "completed").truthy :=
      ⟨cp, hlatest cp hmem, hcompleted⟩
    rw [hpath] at hbefore
    cases hexpected : (expectedArtifacts base).truthy with
    | true =>
      rw [hexpected] at hbefore
      have hkept := List.all_eq_true.mp hbefore
      have hiter := (hlegible cp hmem hcompleted hexpected path hpath).1
      exact ⟨⟨hbinding, fun _ => ⟨path, hpath, hkept⟩⟩,
        evidence_of_kept hpath hexpected hiter hbefore⟩
    | false =>
      rw [hexpected] at hbefore
      exact ⟨⟨hbinding, by simp⟩, .inr ⟨cp, hlatest cp hmem, hbefore⟩⟩

theorem proven_single (hsteps : ∀ steps, fetch base.payload "steps" ≠ .arr steps)
    (hlatest : Latest cps R base) (hdue : AllDue B V R base h) (hfin : Finished V R base h)
    (hplace : ∀ cp ∈ R.latestCp, (nonempty R.worktreePath).isSome) :
    Proven V cps R base h := by
  obtain ⟨hdone, hfin⟩ := hfin
  rw [Proven]
  split
  next steps hs => exact absurd hs (hsteps steps)
  next =>
  split at hfin
  next steps hs => exact absurd hs (hsteps steps)
  next =>
  split at hfin
  next hbefore =>
    obtain ⟨hproven, hevidence⟩ := proven_before hlatest hfin.2 hbefore hplace
    exact ⟨.inr hproven, fun _ => hevidence⟩
  next =>
    obtain ⟨s, hs⟩ := List.length_eq_one_iff.mp hfin
    obtain ⟨h', -, -, -, item, hc, hitem⟩ := hdue 0 s (by simp [hs])
    split at hitem
    next steps hs => exact absurd hs (hsteps steps)
    next =>
      obtain ⟨-, -, -, -, hpayload⟩ := hitem
      refine ⟨.inl ⟨s, hs, hdone s (by simp [hs]), fun key hkey => ?_⟩, by simp [hs]⟩
      simp only [List.mem_cons, List.not_mem_nil, or_false, not_or] at hkey
      rw [hpayload, withWorkspace_get? R _ hkey.2.1]
      exact hc.payload key (by simp [hkey])

theorem finished_proven (hlatest : Latest cps R base) (hdue : AllDue B V R base h)
    (hfin : Finished V R base h) (hplace : ∀ cp ∈ R.latestCp, (nonempty R.worktreePath).isSome) :
    Proven V cps R base h ↔ Accountable V cps R base := by
  by_cases hsteps : ∃ steps, fetch base.payload "steps" = .arr steps
  · obtain ⟨steps, hsteps⟩ := hsteps
    have hdicts : ∃ dicts, steps.mapM Json.members = some dicts := by
      have hfin := hfin.2
      rw [hsteps] at hfin
      exact hfin.imp fun _ h => h.1
    obtain ⟨dicts, hdicts⟩ := hdicts
    exact Reading.proven_iff ⟨hsteps, hdicts⟩ hlatest hdue hfin
  · have hsteps := not_exists.mp hsteps
    refine iff_of_true (proven_single hsteps hlatest hdue hfin hplace) ?_
    rw [Accountable]
    split
    next steps hs => exact absurd hs (hsteps steps)
    next => trivial

end Plan

/-! ## A whole resumption -/

section Whole

variable [LinearOrder F] [FloatText F] [FloatInt F] {V : View F} {d : String} {db₀ : Db F}
variable {trusted : Bool}

omit [FloatText F] [FloatInt F] in
theorem latest_stored {db : Db F} {workerId : String} {cp : WorkerCheckpoint F}
    (h : db.loadLatestCheckpoint workerId = some cp) : cp ∈ db.checkpoints.map (·.2) := by
  have hmem := List.mem_of_mem_head? h
  rw [List.mem_insertionSort] at hmem
  exact (List.mem_filter.mp hmem).1

/-- A resumption that completes its item has all the work done exactly if a list without steps
comes with evidence, and the steps that are left out have names of their own and the artifacts
that are declared for them. -/
theorem completed_work {ws : List (World F)} {r : Except Error (Reply F)}
    {m : (store B).Moment} (hk : Keyed db₀)
    (he : (resumeTaskFromCheckpoint B d trusted).eval (store B) ws ⟨db₀, []⟩ = some (r, m))
    (hview : ∀ e ∈ m.history, Inspects e.op → ∀ a, e.ans = .ok a → V.seen e.op = .ok a)
    (hstored : V.checkpoint = db₀.loadLatestCheckpoint)
    {h₁ h₂ : History F} {item : QueueItem F}
    (hsave : m.history = h₁ ++ ⟨.saveQueueItem item, .ok ()⟩ :: h₂)
    (hdone : item.status = .completed) :
    ∃ base session, taken h₁ d = some base ∧ V.session base.toSessionId = some session ∧
      (Proven V (db₀.checkpoints.map (·.2)) (V.resumption trusted base session) base h₁ ↔
        Accountable V (db₀.checkpoints.map (·.2)) (V.resumption trusted base session) base) := by
  have hacc := accounts_eval hk he
  obtain ⟨h, hh, hplays⟩ := Proc.eval_plays he
  obtain rfl : m.history = h := hh
  have hallow : ∀ {h₁ : History F} {e h₂}, m.history = h₁ ++ e :: h₂ →
      Planned B V trusted d h₁ e.op := fun hsplit => (resume_planned d trusted).allows hplays
    (fun e he => ⟨hacc.answers e he, hview e he⟩) hsplit
  obtain ⟨base, session, htaken, hs, hfin⟩ := hallow hsave hdone
  refine ⟨base, session, htaken, hs, finished_proven (B := B) ?_ ?_ hfin ?_⟩
  · intro cp hcp
    obtain ⟨hcp, hbound⟩ := Option.filter_eq_some_iff.mp hcp
    rw [hstored] at hcp
    exact ⟨latest_stored hcp, of_decide_eq_true hbound⟩
  · intro k s hs'
    obtain ⟨h', h'', rfl, hlen⟩ := sent_split hs'
    obtain ⟨base', session', htaken', hsession', hdue⟩ := hallow
      (hsave.trans (List.append_assoc ..))
    obtain rfl := Option.some.inj ((taken_mono (List.prefix_append ..) htaken').symm.trans htaken)
    obtain rfl := Option.some.inj (hsession'.symm.trans hs)
    exact ⟨h', hlen, hdue⟩
  · intro cp hcp
    obtain ⟨-, hbound⟩ := Option.filter_eq_some_iff.mp hcp
    obtain ⟨-, -, -, -, commit, hcommit, -⟩ := of_decide_eq_true hbound
    obtain ⟨path, hpath, -⟩ := Option.bind_eq_some_iff.mp hcommit
    exact Option.isSome_iff_exists.mpr ⟨path, (Option.filter_eq_some_iff.mp hpath).1⟩

end Whole

/-! ### No steps, and a step that is left out -/

section Sample

def emptyWorkflow : QueueItem Int :=
  { sampleItem "d" .dispatched none with payload := [("steps", .arr [])] }

def completing : Event (sig Int) Error → Bool
  | ⟨.saveQueueItem item, .ok _⟩ => item.status = .completed
  | _ => false

theorem exists_of_completing {e : Event (sig Int) Error} (h : completing e = true) :
    ∃ item, e = ⟨.saveQueueItem item, .ok ()⟩ ∧ item.status = .completed := by
  unfold completing at h
  split at h
  next item u => exact ⟨item, rfl, of_decide_eq_true h⟩
  next => cases h

def stepList (item : QueueItem F) : Option (List (Json F)) :=
  match fetch item.payload "steps" with
  | .arr steps => some steps
  | _ => none

theorem sent_nil {h : History F} (hnone : ∀ e ∈ h, e.op.dispatches = false) : sent h = [] := by
  rw [sent, List.filterMap_eq_nil_iff]
  intro e he
  split
  next => exact absurd (hnone _ he) (by simp [Op.dispatches])
  next => rfl

def endsWith (V : View Int) (p : Except Error (Reply Int) × (store sampleBuiltins).Moment)
    (test : QueueItem Int → Bool) : Bool :=
  p.2.history.all (shows V) && p.2.history.getLast?.any completing &&
    (taken p.2.history.dropLast "d").any fun base => test base &&
      (V.session base.toSessionId).isSome

theorem completed_of_endsWith {V : View Int}
    {p : Except Error (Reply Int) × (store sampleBuiltins).Moment}
    {test : QueueItem Int → Bool} (h : endsWith V p test = true) :
    (∀ e ∈ p.2.history, Inspects e.op → ∀ a, e.ans = .ok a → V.seen e.op = .ok a) ∧
    ∃ item base session,
      p.2.history = p.2.history.dropLast ++ [⟨.saveQueueItem item, .ok ()⟩] ∧
      item.status = .completed ∧ taken p.2.history.dropLast "d" = some base ∧
      V.session base.toSessionId = some session ∧ test base = true := by
  simp only [endsWith, Bool.and_eq_true, List.all_eq_true, Option.any_eq_true] at h
  obtain ⟨⟨hshows, e, hlast, hdone⟩, base, htaken, htest, hsession⟩ := h
  obtain ⟨item, rfl, hst⟩ := exists_of_completing hdone
  obtain ⟨session, hs⟩ := Option.isSome_iff_exists.mp hsession
  refine ⟨fun e he hi a ha => seen_of_shows (by rw [← ha]; exact hshows e he) hi, item, base,
    session, (List.dropLast_append_getLast? _ hlast).symm, hst, htaken, hs, htest⟩

/-- A list without steps: the item is completed, with nothing dispatched, nothing on disk and no
checkpoint. -/
theorem completed_unproven : ∃ ws r m item base session,
    resumeAlone emptyWorkflow ws = some (r, m) ∧
    (∀ e ∈ m.history, Inspects e.op → ∀ a, e.ans = .ok a → sampleView.seen e.op = .ok a) ∧
    m.history = m.history.dropLast ++ [⟨.saveQueueItem item, .ok ()⟩] ∧
    item.status = .completed ∧ taken m.history.dropLast "d" = some base ∧
    sampleView.session base.toSessionId = some session ∧
    ¬ Proven sampleView [] (sampleView.resumption true base session) base m.history.dropLast := by
  have h : (resumeAlone emptyWorkflow (List.replicate 9 (sampleWorld 1))).any (fun p =>
      p.2.history.all (fun e => !e.op.dispatches) &&
        endsWith sampleView p fun base => (stepList base).any List.isEmpty) = true := by
    decide +kernel
  obtain ⟨⟨r, m⟩, hrun, hp⟩ := (Option.any_eq_true _ _).mp h
  obtain ⟨hnone, hends⟩ := Bool.and_eq_true_iff.mp hp
  obtain ⟨hview, item, base, session, hsave, hst, htaken, hs, hsteps⟩ := completed_of_endsWith hends
  refine ⟨_, r, m, item, base, session, hrun, hview, hsave, hst, htaken, hs, fun hproven => ?_⟩
  have hsent : sent m.history.dropLast = [] := sent_nil fun e he => by
    simpa using List.all_eq_true.mp hnone e ((List.dropLast_sublist _).mem he)
  have hlist : fetch base.payload "steps" = .arr [] := by
    rw [stepList] at hsteps
    split at hsteps
    next steps heq => rw [heq, List.isEmpty_iff.mp hsteps]
    next => cases hsteps
  rw [Proven, hlist] at hproven
  obtain ⟨dicts, hdicts, -, hevidence⟩ := hproven
  obtain ⟨path, -, name, -, hthere⟩ | ⟨cp, ⟨hmem, -⟩, -⟩ := hevidence hsent
  · cases hthere
  · cases hmem

def savedItem : QueueItem Int :=
  { sampleItem "d" .dispatched none with
    payload := [("steps", .arr [.obj [("name", .str "a"), ("artifact", .str "out")],
      .obj [("name", .str "b")]])] }

def savedCheckpoint : WorkerCheckpoint Int where
  checkpointId := "cp"
  workerId := "worker"
  teamId := "t"
  stepIndex := 1
  stateSummary := ""
  tokensConsumed := 0
  contextSnapshot := [("dispatch_id", .str "d"), ("task_id", .str "task"),
    ("commit_hash", .str "c"), ("completed_steps", .arr [.str "a"])]
  createdAt := 0

def savedSession : AgentSession Int :=
  ⟨"worker", .worker, "t", .idle, { sampleConfig "worker" with workingDir := some "/w" }, 0, 0⟩

def savedDb : Db Int :=
  { sampleDb [savedItem] with
    sessions := [("worker", savedSession)]
    checkpoints := [("cp", savedCheckpoint)] }

def savedView : View Int where
  session := savedDb.loadSession
  assignment _ := none
  checkpoint := savedDb.loadLatestCheckpoint
  there _ := true
  isDir _ := true
  size _ := 1
  head _ := some "c"

def savedWorld : World Int :=
  { sampleWorld 1 with
    answer := fun o => match o with
      | .pathExists _ | .isDir _ => .ok true
      | .fileSize _ => .ok 1
      | .gitHead _ => .ok (some "c")
      | o => sampleAnswer 1 o }

/-- Two steps: the checkpoint lists the first one, whose artifact is there, and it is left out;
the second one is dispatched, and the worker completes it. -/
theorem completed_proven : ∃ (m : (store sampleBuiltins).Moment) (base : QueueItem Int)
    (session : AgentSession Int), taken m.history.dropLast "d" = some base ∧
    base.payload = savedItem.payload ∧ (sent m.history.dropLast).length = 1 ∧
    Proven savedView [savedCheckpoint] (savedView.resumption true base session) base
      m.history.dropLast := by
  have h : ((resumeTaskFromCheckpoint sampleBuiltins "d" true).eval (store sampleBuiltins)
      (List.replicate 21 savedWorld) ⟨savedDb, []⟩).any (fun p =>
        decide ((sent p.2.history.dropLast).length = 1) &&
          endsWith savedView p (· = { savedItem with status := .running, updatedAt := 1 })) =
      true := by
    decide +kernel
  obtain ⟨⟨r, m⟩, hrun, hp⟩ := (Option.any_eq_true _ _).mp h
  obtain ⟨hone, hends⟩ := Bool.and_eq_true_iff.mp hp
  obtain ⟨hview, item, base, session, hsave, hst, htaken, hs, hbase⟩ := completed_of_endsWith hends
  have hk : Keyed savedDb := ⟨by decide, by decide⟩
  obtain ⟨base', session', htaken', hs', hiff⟩ := completed_work hk hrun hview rfl hsave hst
  obtain rfl := Option.some.inj (htaken'.symm.trans htaken)
  obtain rfl := of_decide_eq_true hbase
  obtain rfl : session' = savedSession := Option.some.inj (hs'.symm.trans (by decide))
  refine ⟨m, _, _, htaken, rfl, of_decide_eq_true hone, hiff.mpr ?_⟩
  intro dicts hdicts
  obtain rfl : dicts = _ := (Option.some.inj hdicts).symm
  refine ⟨nofun, fun i hi hnot => ?_⟩
  obtain rfl | rfl : i = 0 ∨ i = 1 := by
    change i < 2 at hi
    omega
  · exact ⟨.inl rfl, .inl (by simp)⟩
  · exact absurd (by decide +kernel) hnot

end Sample

end SubagentBridge.Supervisor
