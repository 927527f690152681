import SubagentBridge.Execution.ProcessFrames

/-! At most one task is outstanding at each process, however the calls run. -/

namespace SubagentBridge.WorkerProcess

open Library Domain

/-! ## The invariant -/

section Invariant

variable {F : Type} {A : Authority F}

def Idle (w : String) (s : State F A) : Prop :=
  ∀ n, s.processes.get? w = some n → (s.proc n).Settled

structure Booked (w : String) (s : State F A) : Prop where
  own : ∀ n, s.processes.get? w = some n → n < s.os.length ∧ (s.proc n).workerId = w
  balanced : ∀ n < s.os.length, (s.proc n).workerId = w → (s.proc n).Balanced
  claimed : ∀ n, s.processes.get? w = some n → (s.proc n).Settled ∨ w ∈ s.busyWorkers
  attached : ∀ n, s.processes.get? w = some n →
    (s.proc n).exit.isSome = true ∨ s.readers.get? w = some n

def Claim.holds : Claim → Bool
  | .held | .refused | .taken => true
  | _ => false

/-- What a call that sends or collects has found stays so, unless a switch ends the process. -/
structure Tasked (w : String) (m : Mode) (s : State F A) : Prop where
  target : ∀ n, m.target = some (some n) → n < s.os.length ∧ (s.proc n).workerId = w ∧
    (s.processes.get? w = some n ∨
      s.processes.get? w = none ∧ (s.proc n).closed = true ∧ (s.proc n).Settled)
  reader : ∀ k, m.reader = some (some k) → s.readers.get? w = some k ∨ s.readers.get? w = none
  near : ∀ n, m.target = some (some n) → (s.proc n).exit.isSome = true ∨
    s.readers.get? w = some n ∨ s.readers.get? w = none
  meets : ∀ n k, m.target = some (some n) → m.reader = some (some k) →
    (s.proc n).exit.isSome = true ∨ k = n
  polled : ∀ n k, m.target = some (some n) → m.reader = some (some k) → m.polled = some false →
    k = n
  vacant : m.claim = .vacant → m.inLock = true ∧ w ∉ s.busyWorkers
  holds : m.claim.holds = true → w ∈ s.busyWorkers ∧ Idle w s

/-- What a switch has found under the lock is so until it gives the lock back. -/
structure Switched (w : String) (m : Mode) (s : State F A) : Prop where
  target : ∀ n, m.target = some (some n) → n < s.os.length ∧ (s.proc n).workerId = w
  found : m.inLock = true → w ∉ m.dropped → ∀ proc, m.target = some proc →
    s.processes.get? w = proc
  closed : m.closed = true → ∀ n, m.target = some (some n) → (s.proc n).closed = true
  dropped : m.inLock = true → w ∈ m.dropped → s.processes.get? w = none
  vacant : m.claim = .vacant → m.inLock = true ∧ w ∉ s.busyWorkers

/-- A call that starts a process finds none that runs, and nobody writes to the new one. -/
structure Spawned (w : String) (m : Mode) (s : State F A) : Prop where
  found : m.entered = false → ∀ proc, m.target = some proc → s.processes.get? w = proc
  ended : m.entered = false → m.polled = some true → ∀ n, m.target = some (some n) →
    (s.proc n).exit.isSome = true
  started : ∀ n, m.started = some n → n < s.os.length ∧ (s.proc n).workerId = w ∧
    (s.proc n).tasks = [] ∧ (s.proc n).results = []
  replaced : ∀ n, m.started = some n → m.entered = false → ∀ k, s.processes.get? w = some k →
    (s.proc k).exit.isSome = true
  hasReader : m.hasReader = true → ∃ n, m.started = some n ∧ s.readers.get? w = some n
  entered : m.entered = true → ∃ n, m.started = some n ∧ s.processes.get? w = some n

def Mode.Tasks (w : String) (m : Mode) : Prop :=
  (∃ t, m.role = .send w t) ∨ ∃ t, m.role = .collect w t

structure Fits (w : String) (m : Mode) (s : State F A) : Prop where
  tasked : m.Tasks w → Tasked w m s
  switched : m.role = .switch w → Switched w m s
  spawned : m.role = .spawn w → Spawned w m s
  finished : (∃ w', m.role = .finish w') → w ∈ m.dropped → s.processes.get? w = none

/-- The invariant, for one worker: the books, what each call knows, and that no two calls hold
the worker, or use a process that one of them replaces. -/
structure Inv (w : String) (s : State F A) (ms : List (Option Mode)) : Prop where
  booked : Booked w s
  fits : ∀ (i : Nat) (m : Mode), ms[i]? = some (some m) → m.role.concerns w → Fits w m s
  alone : ∀ (i j : Nat) (m m' : Mode), ms[i]? = some (some m) → ms[j]? = some (some m') → i ≠ j →
    m.role.concerns w → m'.role.concerns w → m.role.replaces = false
  unique : ∀ (i j : Nat) (m m' : Mode), ms[i]? = some (some m) → ms[j]? = some (some m') → i ≠ j →
    m.Tasks w → m'.Tasks w → ¬ (m.claim.holds = true ∧ m'.claim.holds = true)

end Invariant

/-! ## What the others do -/

section Others

variable {F : Type} {A : Authority F} {w : String} {s s' : State F A} {m m' : Mode}

theorem Same.proc_of_current (h : Same w s s') (hb : Booked w s) {n : Nat}
    (hn : s.processes.get? w = some n) : (s.proc n).Alike (s'.proc n) :=
  h.alike n (hb.own n hn).1 (hb.own n hn).2

theorem Booked.same (hb : Booked w s) (h : Same w s s') : Booked w s' := by
  constructor
  · intro n hn
    rw [h.process] at hn
    obtain ⟨hlt, hw⟩ := hb.own n hn
    exact ⟨hlt.trans_le h.length, (h.alike n hlt hw).workerId.trans hw⟩
  · intro n hn hw
    by_cases hlt : n < s.os.length
    · have hargv : (s'.proc n).workerId = (s.proc n).workerId := by
        rw [Process.workerId, h.argv n hlt, Process.workerId]
      rw [hargv] at hw
      exact (h.alike n hlt hw).balanced (hb.balanced n hlt hw)
    · obtain ⟨ht, hr⟩ := h.fresh n (not_lt.mp hlt) hn
      exact .inl (ht.trans hr.symm)
  · intro n hn
    rw [h.process] at hn
    exact (hb.claimed n hn).imp (h.proc_of_current hb hn).settled h.busy.mpr
  · intro n hn
    rw [h.process] at hn
    rw [h.reader]
    exact (hb.attached n hn).imp_left (h.proc_of_current hb hn).exit

theorem Idle.same (hi : Idle w s) (hb : Booked w s) (h : Same w s s') : Idle w s' := by
  intro n hn
  rw [h.process] at hn
  exact (h.proc_of_current hb hn).settled (hi n hn)

theorem Tasked.same (ht : Tasked w m s) (hb : Booked w s) (h : Same w s s') : Tasked w m s' := by
  have halike : ∀ n, m.target = some (some n) → (s.proc n).Alike (s'.proc n) := fun n hn =>
    h.alike n (ht.target n hn).1 (ht.target n hn).2.1
  constructor
  · intro n hn
    obtain ⟨hlt, hw, hcur⟩ := ht.target n hn
    rw [h.process]
    refine ⟨hlt.trans_le h.length, (halike n hn).workerId.trans hw, hcur.imp_right ?_⟩
    rintro ⟨hnone, hclosed, hsettled⟩
    exact ⟨hnone, (halike n hn).closed hclosed, (halike n hn).settled hsettled⟩
  · intro k hk
    rw [h.reader]
    exact ht.reader k hk
  · intro n hn
    rw [h.reader]
    exact (ht.near n hn).imp_left (halike n hn).exit
  · intro n k hn hk
    exact (ht.meets n k hn hk).imp_left (halike n hn).exit
  · exact ht.polled
  · intro hc
    rw [h.busy]
    exact ht.vacant hc
  · intro hc
    rw [h.busy]
    exact ⟨(ht.holds hc).1, (ht.holds hc).2.same hb h⟩

theorem Switched.same (hs : Switched w m s) (h : Same w s s') : Switched w m s' := by
  have halike : ∀ n, m.target = some (some n) → (s.proc n).Alike (s'.proc n) := fun n hn =>
    h.alike n (hs.target n hn).1 (hs.target n hn).2
  constructor
  · intro n hn
    exact ⟨(hs.target n hn).1.trans_le h.length, (halike n hn).workerId.trans (hs.target n hn).2⟩
  · rw [h.process]
    exact hs.found
  · exact fun hc n hn => (halike n hn).closed (hs.closed hc n hn)
  · rw [h.process]
    exact hs.dropped
  · rw [h.busy]
    exact hs.vacant

theorem Spawned.same (hs : Spawned w m s) (hb : Booked w s) (h : Same w s s') : Spawned w m s' := by
  constructor
  · rw [h.process]
    exact hs.found
  · intro he hp n hn
    exact (h.proc_of_current hb (hs.found he _ hn)).exit (hs.ended he hp n hn)
  · intro n hn
    obtain ⟨hlt, hw, ht, hr⟩ := hs.started n hn
    have halike := h.alike n hlt hw
    exact ⟨hlt.trans_le h.length, halike.workerId.trans hw, halike.tasks.trans ht,
      halike.results.trans hr⟩
  · intro n hn he k hk
    rw [h.process] at hk
    exact (h.proc_of_current hb hk).exit (hs.replaced n hn he k hk)
  · rw [h.reader]
    exact hs.hasReader
  · rw [h.process]
    exact hs.entered

theorem Fits.same (hf : Fits w m s) (hb : Booked w s) (h : Same w s s') : Fits w m s' := by
  constructor
  · exact fun hr => (hf.tasked hr).same hb h
  · exact fun hr => (hf.switched hr).same h
  · exact fun hr => (hf.spawned hr).same hb h
  · rw [h.process]
    exact hf.finished

end Others

/-! ## The step of one call -/

section Steps

variable {F : Type} {A : Authority F} {w : String} {s s' : State F A} {m m' : Mode}
variable {ms : List (Option Mode)} {i : Nat}

def Inv.Others (w : String) (ms : List (Option Mode)) (i : Nat) (P : Mode → Prop) : Prop :=
  ∀ (j : Nat) (m : Mode), j ≠ i → ms[j]? = some (some m) → m.role.concerns w → P m

theorem Mode.Tasks.concerns (h : m.Tasks w) : m.role.concerns w := by
  obtain ⟨t, hr⟩ | ⟨t, hr⟩ := h <;> exact hr ▸ rfl

theorem Mode.tasks_congr (h : m'.role = m.role) : m'.Tasks w ↔ m.Tasks w := by
  rw [Mode.Tasks, Mode.Tasks, h]

theorem Inv.others_free (hi : Inv w s ms) (hm : ms[i]? = some (some m)) (ht : m.Tasks w)
    (hh : m.claim.holds = true) :
    Inv.Others w ms i fun m₁ => m₁.Tasks w → m₁.claim.holds = false := by
  intro j m₁ hji hj _ h₁
  by_contra hne
  exact hi.unique i j m m₁ hm hj (Ne.symm hji) ht h₁ ⟨hh, by simpa using hne⟩

theorem Inv.update (hi : Inv w s ms) (hm : ms[i]? = some (some m)) (hrole : m'.role = m.role)
    (hbooked : Booked w s') (hself : m.role.concerns w → Fits w m' s')
    (hothers : Inv.Others w ms i fun m₁ => Fits w m₁ s')
    (hunique : m.Tasks w → m'.claim.holds = true →
      Inv.Others w ms i fun m₁ => m₁.Tasks w → m₁.claim.holds = false) :
    Inv w s' (ms.set i (some m')) := by
  have hlt := (List.getElem?_eq_some_iff.mp hm).1
  have hget : ∀ {j : Nat} {m₁ : Mode}, (ms.set i (some m'))[j]? = some (some m₁) →
      j = i ∧ m₁ = m' ∨ j ≠ i ∧ ms[j]? = some (some m₁) := by
    intro j m₁ hj
    by_cases hji : j = i
    · subst hji
      rw [List.getElem?_set_self hlt] at hj
      exact .inl ⟨rfl, (Option.some.inj (Option.some.inj hj)).symm⟩
    · rw [List.getElem?_set_ne (Ne.symm hji)] at hj
      exact .inr ⟨hji, hj⟩
  -- each live call was a live call with the same role
  have hback : ∀ {j : Nat} {m₁ : Mode}, (ms.set i (some m'))[j]? = some (some m₁) →
      ∃ m₂, ms[j]? = some (some m₂) ∧ m₂.role = m₁.role := by
    intro j m₁ hj
    obtain ⟨rfl, rfl⟩ | ⟨-, hj⟩ := hget hj
    · exact ⟨m, hm, hrole.symm⟩
    · exact ⟨m₁, hj, rfl⟩
  refine ⟨hbooked, ?_, ?_, ?_⟩
  · intro j m₁ hj hc
    obtain ⟨rfl, rfl⟩ | ⟨hji, hj⟩ := hget hj
    · exact hself (hrole ▸ hc)
    · exact hothers j m₁ hji hj hc
  · intro j k m₁ m₂ hj hk hjk h₁ h₂
    obtain ⟨n₁, hn₁, hr₁⟩ := hback hj
    obtain ⟨n₂, hn₂, hr₂⟩ := hback hk
    rw [← hr₁] at h₁ ⊢
    rw [← hr₂] at h₂
    exact hi.alone j k n₁ n₂ hn₁ hn₂ hjk h₁ h₂
  · rintro j k m₁ m₂ hj hk hjk h₁ h₂ ⟨c₁, c₂⟩
    obtain ⟨rfl, rfl⟩ | ⟨hji, hj'⟩ := hget hj
    · obtain ⟨rfl, -⟩ | ⟨hki, hk'⟩ := hget hk
      · exact hjk rfl
      · rw [hunique ((Mode.tasks_congr hrole).mp h₁) c₁ k m₂ hki hk' h₂.concerns h₂] at c₂
        cases c₂
    · obtain ⟨rfl, rfl⟩ | ⟨-, hk'⟩ := hget hk
      · rw [hunique ((Mode.tasks_congr hrole).mp h₂) c₂ j m₁ hji hj' h₁.concerns h₁] at c₁
        cases c₁
      · exact hi.unique j k m₁ m₂ hj' hk' hjk h₁ h₂ ⟨c₁, c₂⟩

theorem Inv.keep (hi : Inv w s ms) (hm : ms[i]? = some (some m)) (hrole : m'.role = m.role)
    (hsame : Same w s s') (hself : m.role.concerns w → Fits w m' s')
    (hclaim : m.Tasks w → m'.claim.holds = true → m.claim.holds = true) :
    Inv w s' (ms.set i (some m')) := by
  apply hi.update hm hrole (hi.booked.same hsame) hself
  · exact fun j m₁ _ hj hc => (hi.fits j m₁ hj hc).same hi.booked hsame
  · intro ht hh
    exact hi.others_free hm ht (hclaim ht hh)

theorem Inv.same (hi : Inv w s ms) (hsame : Same w s s') : Inv w s' ms :=
  ⟨hi.booked.same hsame, fun i m hm hc => (hi.fits i m hm hc).same hi.booked hsame, hi.alone,
    hi.unique⟩

theorem Inv.over (hi : Inv w s ms) (i : Nat) : Inv w s (ms.set i none) := by
  have hget : ∀ {j : Nat} {m₁ : Mode}, (ms.set i none)[j]? = some (some m₁) →
      ms[j]? = some (some m₁) := by
    intro j m₁ hj
    by_cases hji : j = i
    · subst hji
      rw [List.getElem?_set] at hj
      split at hj
      next =>
        split at hj
        next => cases hj
        next => cases hj
      next => exact hj
    · rwa [List.getElem?_set_ne (Ne.symm hji)] at hj
  exact ⟨hi.booked, fun j m₁ hj => hi.fits j m₁ (hget hj),
    fun j k m₁ m₂ hj hk => hi.alone j k m₁ m₂ (hget hj) (hget hk),
    fun j k m₁ m₂ hj hk => hi.unique j k m₁ m₂ (hget hj) (hget hk)⟩

theorem fits_initial (role : Role) : Fits w (.initial role) s := by
  constructor
  · intro _
    constructor <;> simp [Mode.initial, Claim.holds]
  · intro _
    constructor <;> simp [Mode.initial]
  · intro _
    constructor <;> simp [Mode.initial]
  · simp [Mode.initial]

theorem Inv.start (hi : Inv w s ms) {role : Role}
    (h : ∀ m, some m ∈ ms → ¬ role.Conflicts m.role) : Inv w s (ms ++ [some (.initial role)]) := by
  have hget : ∀ {j : Nat} {m₁ : Mode}, (ms ++ [some (.initial role)])[j]? = some (some m₁) →
      ms[j]? = some (some m₁) ∨ j = ms.length ∧ m₁ = .initial role := by
    intro j m₁ hj
    rw [List.getElem?_append] at hj
    split at hj
    next => exact .inl hj
    next hlt =>
      have hmem := List.mem_singleton.mp (List.mem_of_getElem? hj)
      have hlt' := (List.getElem?_eq_some_iff.mp hj).1
      simp only [List.length_singleton] at hlt'
      exact .inr ⟨by omega, Option.some.inj hmem⟩
  refine ⟨hi.booked, ?_, ?_, ?_⟩
  · intro j m₁ hj hc
    obtain hj | ⟨-, rfl⟩ := hget hj
    · exact hi.fits j m₁ hj hc
    · exact fits_initial role
  · intro j k m₁ m₂ hj hk hjk h₁ h₂
    have hno : ∀ (b : Bool), ¬ b = true → b = false := by simp
    obtain hj | ⟨rfl, rfl⟩ := hget hj
    · obtain hk | ⟨rfl, rfl⟩ := hget hk
      · exact hi.alone j k m₁ m₂ hj hk hjk h₁ h₂
      · exact hno _ fun hr => h m₁ (List.mem_of_getElem? hj) ⟨.inr hr, w, h₂, h₁⟩
    · obtain hk | ⟨rfl, rfl⟩ := hget hk
      · exact hno _ fun hr => h m₂ (List.mem_of_getElem? hk) ⟨.inl hr, w, h₁, h₂⟩
      · exact absurd rfl hjk
  · rintro j k m₁ m₂ hj hk hjk h₁ h₂ ⟨c₁, c₂⟩
    obtain hj | ⟨rfl, rfl⟩ := hget hj
    · obtain hk | ⟨rfl, rfl⟩ := hget hk
      · exact hi.unique j k m₁ m₂ hj hk hjk h₁ h₂ ⟨c₁, c₂⟩
      · cases c₂
    · cases c₁

end Steps

/-! ## What a call learns -/

section Learning

variable {F : Type} {A : Authority F} {w w' : String} {s : State F A} {m : Mode}

theorem fits_lock (hf : Fits w m s)
    (hswitch : (∃ w, m.role = .switch w) → m.target = none ∧ m.dropped = []) :
    Fits w { m with inLock := true } s := by
  refine ⟨fun hr => ?_, fun hr => ?_, fun hr => ?_, hf.finished⟩
  · have ht := hf.tasked hr
    exact ⟨ht.target, ht.reader, ht.near, ht.meets, ht.polled, fun hc => ⟨rfl, (ht.vacant hc).2⟩,
      ht.holds⟩
  · have hs := hf.switched hr
    obtain ⟨htarget, hdropped⟩ := hswitch ⟨w, hr⟩
    refine ⟨hs.target, ?_, hs.closed, ?_, fun hc => ⟨rfl, (hs.vacant hc).2⟩⟩
    · simp [htarget]
    · simp [hdropped]
  · have hs := hf.spawned hr
    exact ⟨hs.found, hs.ended, hs.started, hs.replaced, hs.hasReader, hs.entered⟩

theorem holds_leave : m.leave.claim.holds = m.claim.holds := by
  rw [Mode.leave]
  cases m.claim <;> rfl

theorem fits_unlock (hf : Fits w m s) : Fits w m.leave s := by
  have hvacant : m.leave.claim ≠ .vacant := by
    rw [Mode.leave]
    simp only
    split
    next => exact Claim.noConfusion
    next h => exact h
  refine ⟨fun hr => ?_, fun hr => ?_, fun hr => ?_, hf.finished⟩
  · have ht := hf.tasked hr
    refine ⟨ht.target, ht.reader, ht.near, ht.meets, ht.polled, fun hc => absurd hc hvacant, ?_⟩
    rw [holds_leave]
    exact ht.holds
  · have hs := hf.switched hr
    exact ⟨hs.target, by simp [Mode.leave], hs.closed, by simp [Mode.leave],
      fun hc => absurd hc hvacant⟩
  · have hs := hf.spawned hr
    exact ⟨hs.found, hs.ended, hs.started, hs.replaced, hs.hasReader, hs.entered⟩

def Mode.May (m : Mode) (w : String) : Prop :=
  m.role.concerns w ∨ (∃ w', m.role = .finish w') ∨ m.role = .other

theorem Mode.May.of_tasks (h : m.May w') (hr : m.Tasks w) : w' = w := by
  obtain ⟨t, hr⟩ | ⟨t, hr⟩ := hr
  · simpa [Mode.May, hr, Role.concerns, eq_comm] using h
  · simpa [Mode.May, hr, Role.concerns, eq_comm] using h

theorem Mode.May.of_switch (h : m.May w') (hr : m.role = .switch w) : w' = w := by
  simpa [Mode.May, hr, Role.concerns, eq_comm] using h

theorem Mode.May.of_spawn (h : m.May w') (hr : m.role = .spawn w) : w' = w := by
  simpa [Mode.May, hr, Role.concerns, eq_comm] using h

theorem fits_processOf (hf : Fits w m s) (hb : Booked w s) (hmay : m.May w') :
    Fits w { m with target := some (s.processes.get? w'), polled := .none, closed := false } s := by
  refine ⟨fun hr => ?_, fun hr => ?_, fun hr => ?_, hf.finished⟩
  · obtain rfl := hmay.of_tasks hr
    have ht := hf.tasked hr
    have hcur : ∀ n, some (s.processes.get? w') = some (some n) → s.processes.get? w' = some n :=
      fun n hn => Option.some.inj hn
    refine ⟨fun n hn => ?_, ht.reader, fun n hn => ?_, fun n k hn hk => ?_, by simp,
      ht.vacant, ht.holds⟩
    · obtain ⟨hlt, hw⟩ := hb.own n (hcur n hn)
      exact ⟨hlt, hw, .inl (hcur n hn)⟩
    · exact (hb.attached n (hcur n hn)).imp_right .inl
    · obtain he | ha := hb.attached n (hcur n hn)
      · exact .inl he
      · obtain hr | hr := ht.reader k hk
        · exact .inr (Option.some.inj (hr.symm.trans ha))
        · rw [ha] at hr
          cases hr
  · obtain rfl := hmay.of_switch hr
    have hs := hf.switched hr
    refine ⟨fun n hn => hb.own n (Option.some.inj hn), fun _ _ proc hp =>
      Option.some.inj hp, by simp,
      hs.dropped, hs.vacant⟩
  · obtain rfl := hmay.of_spawn hr
    have hs := hf.spawned hr
    exact ⟨fun _ proc hp => Option.some.inj hp, by simp, hs.started, hs.replaced, hs.hasReader,
      hs.entered⟩

theorem fits_readerOf (hf : Fits w m s) (hmay : m.May w') :
    Fits w { m with reader := some (m.reader.join.or (s.readers.get? w')), polled := .none } s := by
  refine ⟨fun hr => ?_, fun hr => ?_, fun hr => ?_, hf.finished⟩
  · obtain rfl := hmay.of_tasks hr
    have ht := hf.tasked hr
    -- the reader that the call found first, or the present one
    have hread : ∀ k, m.reader.join.or (s.readers.get? w') = some k →
        m.reader = some (some k) ∨ s.readers.get? w' = some k := by
      intro k hk
      rcases hm : m.reader with - | - | k'
      · exact .inr (by simpa [hm] using hk)
      · exact .inr (by simpa [hm] using hk)
      · exact .inl (by simpa [hm] using hk)
    refine ⟨ht.target, fun k hk => ?_, ht.near, fun n k hn hk => ?_, by simp, ht.vacant, ht.holds⟩
    · obtain hk | hk := hread k (Option.some.inj hk)
      · exact ht.reader k hk
      · exact .inl hk
    · obtain hk | hk := hread k (Option.some.inj hk)
      · exact ht.meets n k hn hk
      · obtain he | ha | ha := ht.near n hn
        · exact .inl he
        · exact .inr (Option.some.inj (hk.symm.trans ha))
        · rw [hk] at ha
          cases ha
  · have hs := hf.switched hr
    exact ⟨hs.target, hs.found, hs.closed, hs.dropped, hs.vacant⟩
  · have hs := hf.spawned hr
    exact ⟨hs.found, by simp, hs.started, hs.replaced, hs.hasReader, hs.entered⟩

theorem fits_poll {n : Nat} (hf : Fits w m s) (hn : m.target = some (some n)) :
    Fits w { m with polled := some (s.proc n).exit.isSome } s := by
  have hself : ∀ k, m.target = some (some k) → k = n := by
    intro k hk
    rw [hn] at hk
    exact (Option.some.inj (Option.some.inj hk)).symm
  refine ⟨fun hr => ?_, fun hr => ?_, fun hr => ?_, hf.finished⟩
  · have ht := hf.tasked hr
    refine ⟨ht.target, ht.reader, ht.near, ht.meets, fun k j hk hj hp => ?_, ht.vacant, ht.holds⟩
    obtain he | he := ht.meets k j hk hj
    · rw [hself k hk] at he
      rw [he] at hp
      cases hp
    · exact he
  · have hs := hf.switched hr
    exact ⟨hs.target, hs.found, hs.closed, hs.dropped, hs.vacant⟩
  · have hs := hf.spawned hr
    refine ⟨hs.found, fun _ hp k hk => ?_, hs.started, hs.replaced, hs.hasReader, hs.entered⟩
    rw [hself k hk]
    exact Option.some.inj hp

theorem fits_isBusy (hf : Fits w m s) (hlock : m.inLock = true)
    (hcon : m.role.concerns w') :
    Fits w { m with claim := if decide (w' ∈ s.busyWorkers) then .none else .vacant } s := by
  have hfree : (if decide (w' ∈ s.busyWorkers) then Claim.none else .vacant) = .vacant →
      w' ∉ s.busyWorkers := by
    split
    next => exact Claim.noConfusion
    next h => exact fun _ => by simpa using h
  refine ⟨fun hr => ?_, fun hr => ?_, fun hr => ?_, hf.finished⟩
  · obtain rfl := Mode.May.of_tasks (.inl hcon) hr
    have ht := hf.tasked hr
    refine ⟨ht.target, ht.reader, ht.near, ht.meets, ht.polled, fun hv => ⟨hlock, hfree hv⟩, ?_⟩
    intro hh
    split at hh <;> cases hh
  · obtain rfl := Mode.May.of_switch (.inl hcon) hr
    have hs := hf.switched hr
    exact ⟨hs.target, hs.found, hs.closed, hs.dropped, fun hv => ⟨hlock, hfree hv⟩⟩
  · have hs := hf.spawned hr
    exact ⟨hs.found, hs.ended, hs.started, hs.replaced, hs.hasReader, hs.entered⟩

theorem fits_closed {n : Nat} (hf : Fits w m s) (hn : m.target = some (some n))
    (hclosed : (s.proc n).closed = true) : Fits w { m with closed := true } s := by
  refine ⟨fun hr => ?_, fun hr => ?_, fun hr => ?_, hf.finished⟩
  · have ht := hf.tasked hr
    exact ⟨ht.target, ht.reader, ht.near, ht.meets, ht.polled, ht.vacant, ht.holds⟩
  · have hs := hf.switched hr
    refine ⟨hs.target, hs.found, fun _ k hk => ?_, hs.dropped, hs.vacant⟩
    rw [hn] at hk
    obtain rfl := Option.some.inj (Option.some.inj hk)
    exact hclosed
  · have hs := hf.spawned hr
    exact ⟨hs.found, hs.ended, hs.started, hs.replaced, hs.hasReader, hs.entered⟩

end Learning

/-! ## What a call does to its worker -/

section Effects

variable {F : Type} {A : Authority F} {w : String} {s : State F A} {m m' : Mode}
variable {ms : List (Option Mode)} {i : Nat}

theorem Mode.Tasks.eq_of_concerns {w' : String} (h : m.Tasks w)
    (hc : m.role.concerns w') : w' = w :=
  Mode.May.of_tasks (.inl hc) h

theorem Fits.of_parts (hrep : m.role.replaces = false) (ht : m.Tasks w → Tasked w m s)
    (hs : m.role = .switch w → Switched w m s) : Fits w m s := by
  refine ⟨ht, hs, fun hr => ?_, ?_⟩
  · rw [hr] at hrep
    cases hrep
  · rintro ⟨w', hr⟩
    rw [hr] at hrep
    cases hrep

theorem Inv.others_stay (hi : Inv w s ms) (hm : ms[i]? = some (some m)) (hc : m.role.concerns w) :
    Inv.Others w ms i fun m₁ => m₁.role.replaces = false :=
  fun j m₁ hji hj h₁ => hi.alone j i m₁ m hj hm hji h₁ hc

theorem Inv.no_others (hi : Inv w s ms) (hm : ms[i]? = some (some m)) (hc : m.role.concerns w)
    (hr : m.role.replaces = true) (P : Mode → Prop) : Inv.Others w ms i P := by
  intro j m₁ hji hj h₁
  rw [hi.alone i j m m₁ hm hj (Ne.symm hji) hc h₁] at hr
  cases hr

theorem inv_addBusy {w₀ t : String} (hi : ∀ w, Inv w s ms) (hm : ms[i]? = some (some m))
    (hlock : ∀ (j : Nat) (m₁ : Mode), ms[j]? = some (some m₁) → m₁.inLock = true → j = i)
    (hr : m.role = .send w₀ t) (hv : m.claim = .vacant) (w : String) :
    Inv w { s with busyWorkers := w₀ :: s.busyWorkers }
      (ms.set i (some { m with claim := .held })) := by
  have htasks : m.Tasks w₀ := .inl ⟨t, hr⟩
  by_cases hw : w = w₀
  · subst hw
    have hself := ((hi w).fits i m hm htasks.concerns).tasked htasks
    have hfree := (hself.vacant hv).2
    have hidle : Idle w s := fun n hn => ((hi w).booked.claimed n hn).resolve_right hfree
    have hbooked := (hi w).booked
    refine (hi w).update hm (by rfl) ?_ ?_ ?_ ?_
    · exact ⟨hbooked.own, hbooked.balanced, fun n hn => .inr List.mem_cons_self, hbooked.attached⟩
    · intro hc
      apply Fits.of_parts (by rw [hr]; rfl)
      · exact fun _ => ⟨hself.target, hself.reader, hself.near, hself.meets, hself.polled,
          fun h => Claim.noConfusion h, fun _ => ⟨List.mem_cons_self, hidle⟩⟩
      · intro h
        rw [hr] at h
        cases h
    · intro j m₁ hji hj h₁
      have hf := (hi w).fits j m₁ hj h₁
      apply Fits.of_parts ((hi w).others_stay hm htasks.concerns j m₁ hji hj h₁)
      · intro h
        have ht := hf.tasked h
        exact ⟨ht.target, ht.reader, ht.near, ht.meets, ht.polled,
          fun h => absurd (hlock j m₁ hj (ht.vacant h).1) hji, fun h => absurd (ht.holds h).1 hfree⟩
      · intro h
        have hs := hf.switched h
        exact ⟨hs.target, hs.found, hs.closed, hs.dropped,
          fun h => absurd (hlock j m₁ hj (hs.vacant h).1) hji⟩
    · intro _ _ j m₁ hji hj h₁ ht
      by_contra hne
      exact hfree ((((hi w).fits j m₁ hj h₁).tasked ht).holds (by simpa using hne)).1
  · refine (hi w).keep hm (by rfl) ?_ ?_ ?_
    · exact same_of_os rfl rfl (by simp [hw]) rfl
    · exact fun hc => absurd (htasks.eq_of_concerns hc) hw
    · exact fun h => absurd (htasks.eq_of_concerns h.concerns) hw

theorem inv_discardBusy {w₀ : String} (hi : ∀ w, Inv w s ms) (hm : ms[i]? = some (some m))
    (htasks : m.Tasks w₀) (hh : m.claim.holds = true) (w : String) :
    Inv w { s with busyWorkers := s.busyWorkers.filter (· ≠ w₀) }
      (ms.set i (some { m with claim := .none })) := by
  by_cases hw : w = w₀
  · subst hw
    have hself := ((hi w).fits i m hm htasks.concerns).tasked htasks
    have hidle := (hself.holds hh).2
    have hbooked := (hi w).booked
    have hfree := (hi w).others_free hm htasks hh
    have hgone : w ∉ s.busyWorkers.filter (· ≠ w) := by simp
    refine (hi w).update hm (by rfl) ?_ ?_ ?_ fun _ h => Bool.noConfusion h
    · exact ⟨hbooked.own, hbooked.balanced, fun n hn => .inl (hidle n hn), hbooked.attached⟩
    · intro hc
      have hf := (hi w).fits i m hm hc
      refine ⟨fun _ => ?_, fun hr => ?_, fun hr => ?_, hf.finished⟩
      · exact ⟨hself.target, hself.reader, hself.near, hself.meets, hself.polled,
          fun h => Claim.noConfusion h, fun h => Bool.noConfusion h⟩
      · have hs := hf.switched hr
        exact ⟨hs.target, hs.found, hs.closed, hs.dropped, fun h => Claim.noConfusion h⟩
      · have hs := hf.spawned hr
        exact ⟨hs.found, hs.ended, hs.started, hs.replaced, hs.hasReader, hs.entered⟩
    · intro j m₁ hji hj h₁
      have hf := (hi w).fits j m₁ hj h₁
      apply Fits.of_parts ((hi w).others_stay hm htasks.concerns j m₁ hji hj h₁)
      · intro h
        have ht := hf.tasked h
        refine ⟨ht.target, ht.reader, ht.near, ht.meets, ht.polled,
          fun h => ⟨(ht.vacant h).1, hgone⟩, fun hh₁ => ?_⟩
        rw [hfree j m₁ hji hj h₁ h] at hh₁
        cases hh₁
      · intro h
        have hs := hf.switched h
        exact ⟨hs.target, hs.found, hs.closed, hs.dropped, fun h => ⟨(hs.vacant h).1, hgone⟩⟩
  · refine (hi w).keep hm (by rfl) ?_ ?_ ?_
    · exact same_of_os rfl rfl (by simp [hw]) rfl
    · exact fun hc => absurd (htasks.eq_of_concerns hc) hw
    · exact fun h => absurd (htasks.eq_of_concerns h.concerns) hw

/-! ### Writing to the process of the worker, and reading from it -/

structure Touches (s : State F A) (n : Nat) (f : Process F → Process F) : Prop where
  argv : (f (s.proc n)).argv = (s.proc n).argv
  closed : (f (s.proc n)).closed = (s.proc n).closed
  exit : (f (s.proc n)).exit = (s.proc n).exit

variable {n : Nat} {f : Process F → Process F}

theorem Touches.proc (hf : Touches s n f) (j : Nat) :
    ((s.setProc n f).proc j).workerId = (s.proc j).workerId ∧
      ((s.setProc n f).proc j).closed = (s.proc j).closed ∧
      ((s.setProc n f).proc j).exit = (s.proc j).exit := by
  rw [proc_setProc]
  split
  next hj =>
    rw [hj.1, Process.workerId, hf.argv, Process.workerId]
    exact ⟨rfl, hf.closed, hf.exit⟩
  next => exact ⟨rfl, rfl, rfl⟩

theorem Tasked.touch (ht : Tasked w m s) (hf : Touches s n f) (hcur : s.processes.get? w = some n)
    (hh : m.claim.holds = false) : Tasked w m (s.setProc n f) := by
  constructor
  · intro j hj
    obtain ⟨hlt, hw, hproc | ⟨hnone, -⟩⟩ := ht.target j hj
    · exact ⟨by rwa [length_setProc], (hf.proc j).1.trans hw, .inl hproc⟩
    · rw [hcur] at hnone
      cases hnone
  · exact ht.reader
  · intro j hj
    rw [(hf.proc j).2.2]
    exact ht.near j hj
  · intro j k hj hk
    rw [(hf.proc j).2.2]
    exact ht.meets j k hj hk
  · exact ht.polled
  · exact ht.vacant
  · intro h
    rw [hh] at h
    cases h

theorem Switched.touch (hs : Switched w m s) (hf : Touches s n f) :
    Switched w m (s.setProc n f) := by
  refine ⟨fun j hj => ?_, hs.found, fun hc j hj => ?_, hs.dropped, hs.vacant⟩
  · exact ⟨by rw [length_setProc]; exact (hs.target j hj).1, (hf.proc j).1.trans (hs.target j hj).2⟩
  · rw [(hf.proc j).2.1]
    exact hs.closed hc j hj

theorem Booked.touch (hb : Booked w s) (hf : Touches s n f) (hbusy : w ∈ s.busyWorkers)
    (hbalanced : (f (s.proc n)).Balanced) : Booked w (s.setProc n f) := by
  constructor
  · intro j hj
    rw [length_setProc, (hf.proc j).1]
    exact hb.own j hj
  · intro j hj hw
    rw [length_setProc] at hj
    rw [(hf.proc j).1] at hw
    rw [proc_setProc]
    split
    next h =>
      rw [h.1]
      exact hbalanced
    next => exact hb.balanced j hj hw
  · exact fun j _ => .inr hbusy
  · intro j hj
    rw [(hf.proc j).2.2]
    exact hb.attached j hj

theorem inv_touch {w₀ : String} (hi : ∀ w, Inv w s ms) (hm : ms[i]? = some (some m))
    (htasks : m.Tasks w₀) (hf : Touches s n f) (hcur : s.processes.get? w₀ = some n)
    (hbusy : w₀ ∈ s.busyWorkers) (hbalanced : (f (s.proc n)).Balanced) (hrole : m'.role = m.role)
    (hself : Tasked w₀ m' (s.setProc n f))
    (hfree : Inv.Others w₀ ms i fun m₁ => m₁.Tasks w₀ → m₁.claim.holds = false) (w : String) :
    Inv w (s.setProc n f) (ms.set i (some m')) := by
  by_cases hw : w = w₀
  · subst hw
    refine (hi w).update hm hrole ((hi w).booked.touch hf hbusy hbalanced) ?_ ?_ fun _ _ => hfree
    · intro hc
      have ht := (Mode.tasks_congr hrole).mpr htasks
      obtain ⟨t, hr⟩ | ⟨t, hr⟩ := ht
      · exact Fits.of_parts (by rw [hr]; rfl) (fun _ => hself) fun h => by rw [hr] at h; cases h
      · exact Fits.of_parts (by rw [hr]; rfl) (fun _ => hself) fun h => by rw [hr] at h; cases h
    · intro j m₁ hji hj h₁
      have hfits := (hi w).fits j m₁ hj h₁
      apply Fits.of_parts ((hi w).others_stay hm htasks.concerns j m₁ hji hj h₁)
      · exact fun h => (hfits.tasked h).touch hf hcur (hfree j m₁ hji hj h₁ h)
      · exact fun h => (hfits.switched h).touch hf
  · refine (hi w).keep hm hrole ?_ ?_ ?_
    · refine same_setProc hf.argv fun h => absurd ?_ hw
      rw [← h]
      exact ((hi w₀).booked.own n hcur).2
    · exact fun hc => absurd (htasks.eq_of_concerns hc) hw
    · exact fun h => absurd (htasks.eq_of_concerns h.concerns) hw

theorem Tasked.claim {c : Claim} {wrote : Option Nat} (ht : Tasked w m s)
    (hv : c = .vacant → m.inLock = true ∧ w ∉ s.busyWorkers)
    (hh : c.holds = true → w ∈ s.busyWorkers ∧ Idle w s) :
    Tasked w { m with wrote, claim := c } s :=
  ⟨ht.target, ht.reader, ht.near, ht.meets, ht.polled, hv, hh⟩

theorem inv_write {w₀ t : String} {fields : Reply F} (hi : ∀ w, Inv w s ms)
    (hm : ms[i]? = some (some m)) (hr : m.role = .send w₀ t) (hc : m.claim = .held)
    (hn : m.target = some (some n)) (hopen : (s.proc n).closed = false) (w : String) :
    Inv w (s.setProc n fun p => { p with stdin := p.stdin ++ [.task t fields] })
      (ms.set i (some { m with wrote := some n, claim := .sent })) := by
  have htasks : m.Tasks w₀ := .inl ⟨t, hr⟩
  have hself := ((hi w₀).fits i m hm htasks.concerns).tasked htasks
  have hh : m.claim.holds = true := by rw [hc]; rfl
  obtain ⟨hbusy, hidle⟩ := hself.holds hh
  have hcur : s.processes.get? w₀ = some n := by
    obtain ⟨-, -, hcur | ⟨-, hclosed, -⟩⟩ := hself.target n hn
    · exact hcur
    · rw [hopen] at hclosed
      cases hclosed
  have hf : Touches s n fun p => { p with stdin := p.stdin ++ [.task t fields] } := ⟨rfl, rfl, rfl⟩
  refine inv_touch hi hm htasks hf hcur hbusy (.inr ⟨t, ?_⟩) (by rfl) ?_
    ((hi w₀).others_free hm htasks hh) w
  · have hsettled : (s.proc n).tasks = (s.proc n).results := hidle n hcur
    rw [← show (s.proc n).results = Process.results { s.proc n with
      stdin := (s.proc n).stdin ++ [.task t fields] } from rfl, ← hsettled]
    simp [Process.tasks, Message.taskId?]
  · exact (hself.claim (fun h => Claim.noConfusion h) fun h => Bool.noConfusion h).touch hf hcur rfl

theorem inv_take {w₀ t : String} {p : Process F} {event : Reply F} (hi : ∀ w, Inv w s ms)
    (hm : ms[i]? = some (some m)) (htasks : m.Tasks w₀) (hc : m.claim.holds = false)
    (hn : m.target = some (some n)) (hhonest : (s.proc n).Honest)
    (htake : (s.proc n).take (.result t) = some (event, p)) (w : String) :
    Inv w (s.setProc n fun _ => p) (ms.set i (some { m with claim := .taken })) := by
  have hself := ((hi w₀).fits i m hm htasks.concerns).tasked htasks
  obtain ⟨hlt, hw, hproc⟩ := hself.target n hn
  have hbooked := (hi w₀).booked
  obtain ⟨hlast, hargv, -, hsettled, hclosed, hexit⟩ :=
    take_result hhonest (hbooked.balanced n hlt hw) htake
  have hnot : ¬ (s.proc n).Settled := by
    intro h
    rw [Process.Settled, hlast] at h
    simp at h
  have hcur : s.processes.get? w₀ = some n := hproc.resolve_right fun h => hnot h.2.2
  have hbusy := (hbooked.claimed n hcur).resolve_left hnot
  have hf : Touches s n fun _ => p := ⟨hargv, hclosed, hexit⟩
  have hidle : Idle w₀ (s.setProc n fun _ => p) := by
    intro k hk
    obtain rfl : n = k := Option.some.inj (hcur.symm.trans hk)
    rw [proc_setProc, if_pos ⟨rfl, hlt⟩]
    exact hsettled
  have hfree : Inv.Others w₀ ms i fun m₁ => m₁.Tasks w₀ → m₁.claim.holds = false := by
    intro j m₁ hji hj h₁ ht₁
    by_contra hne
    exact hnot (((((hi w₀).fits j m₁ hj h₁).tasked ht₁).holds (by simpa using hne)).2 n hcur)
  refine inv_touch hi hm htasks hf hcur hbusy (.inl hsettled) (by rfl) ?_ hfree w
  exact (hself.touch hf hcur hc).claim (fun h => Claim.noConfusion h) fun _ => ⟨hbusy, hidle⟩

/-! ### Starting a process -/

theorem spawn_eq {w₀ w' : String} (hr : m.role = .spawn w₀) (hc : m.role.concerns w') : w' = w₀ :=
  Mode.May.of_spawn (.inl hc) hr

theorem Fits.of_spawned (hr : m.role = .spawn w) (h : Spawned w m s) : Fits w m s := by
  refine ⟨?_, fun h' => ?_, fun _ => h, ?_⟩
  · rintro (⟨t, h'⟩ | ⟨t, h'⟩)
    · rw [hr] at h'
      cases h'
    · rw [hr] at h'
      cases h'
  · rw [hr] at h'
    cases h'
  · rintro ⟨w', h'⟩
    rw [hr] at h'
    cases h'

theorem inv_spawn {w₀ : String} {s' : State F A} (hi : ∀ w, Inv w s ms)
    (hm : ms[i]? = some (some m)) (hr : m.role = .spawn w₀) (hrole : m'.role = m.role)
    (hsame : ∀ w, w ≠ w₀ → Same w s s') (hbooked : Booked w₀ s') (hself : Spawned w₀ m' s')
    (w : String) : Inv w s' (ms.set i (some m')) := by
  have hno : ∀ {w'}, ¬ m.Tasks w' := by
    rintro w' (⟨t, h⟩ | ⟨t, h⟩)
    · rw [hr] at h
      cases h
    · rw [hr] at h
      cases h
  by_cases hw : w = w₀
  · subst hw
    have hc : m.role.concerns w := by rw [hr]; rfl
    refine (hi w).update hm hrole hbooked (fun _ => ?_) ?_ fun h => absurd h hno
    · exact .of_spawned (hrole.trans hr) hself
    · exact (hi w).no_others hm hc (by rw [hr]; rfl) _
  · refine (hi w).keep hm hrole (hsame w hw) ?_ fun h => absurd h hno
    exact fun hc => absurd (spawn_eq hr hc) hw

theorem Inv.spawned {w₀ : String} (hi : Inv w₀ s ms) (hm : ms[i]? = some (some m))
    (hr : m.role = .spawn w₀) : Spawned w₀ m s :=
  (hi.fits i m hm (by rw [hr]; rfl)).spawned hr

section Spawning

variable {w₀ : String} {k : Nat}

theorem inv_popen [LinearOrder F] [NatCast F] {argv : List String} {cwd : Option String}
    {x : World F A} (hi : ∀ w, Inv w s ms) (hm : ms[i]? = some (some m)) (hr : m.role = .spawn w₀)
    (hargv : argv[4]? = some w₀) (hreader : m.hasReader = false) (hentered : m.entered = false)
    (htarget : m.target = some none ∨ (∃ n, m.target = some (some n)) ∧ m.polled = some true)
    (w : String) : Inv w (run (.popen argv cwd) x s).2
      (ms.set i (some { m with started := some s.os.length })) := by
  have hs := (hi w₀).spawned hm hr
  have hb := (hi w₀).booked
  have hsame : ∀ w, Same w s (run (.popen argv cwd) x s).2 := fun w => same_popen x
  have hnew : (run (.popen argv cwd) x s).2.proc s.os.length =
      ⟨x.pid, argv, cwd, [], [], [], none, none, false⟩ := by
    simp [run, State.proc]
  refine inv_spawn hi hm hr (by rfl) (fun w _ => hsame w) (hb.same (hsame w₀)) ?_ w
  have hs' := hs.same hb (hsame w₀)
  refine ⟨hs'.found, hs'.ended, fun n hn => ?_, fun n _ _ k hk => ?_, ?_, ?_⟩
  · obtain rfl := Option.some.inj hn
    rw [hnew]
    refine ⟨by simp [run], ?_, rfl, rfl⟩
    simp [Process.workerId, hargv]
  · -- the process that the new one replaces has ended
    rw [(hsame w₀).process] at hk
    apply ((hsame w₀).proc_of_current hb hk).exit
    obtain ht | ⟨⟨j, ht⟩, hp⟩ := htarget
    · rw [hs.found hentered none ht] at hk
      cases hk
    · have hj := hs.found hentered (some j) ht
      obtain rfl : j = k := Option.some.inj (hj.symm.trans hk)
      exact hs.ended hentered hp j ht
  · intro h
    rw [hreader] at h
    cases h
  · intro h
    rw [hentered] at h
    cases h

theorem inv_setReader (hi : ∀ w, Inv w s ms) (hm : ms[i]? = some (some m)) (hr : m.role = .spawn w₀)
    (hk : m.started = some k) (hentered : m.entered = false) (w : String) :
    Inv w { s with readers := s.readers.set w₀ k }
      (ms.set i (some { m with hasReader := true })) := by
  have hs := (hi w₀).spawned hm hr
  have hb := (hi w₀).booked
  refine inv_spawn hi hm hr (by rfl) (fun w hw => ?_) ?_ ?_ w
  · exact same_of_os rfl (by rw [Dict.get?_set, if_neg (Ne.symm hw)]) .rfl rfl
  · exact ⟨hb.own, hb.balanced, hb.claimed, fun n hn => .inl (hs.replaced k hk hentered n hn)⟩
  · refine ⟨hs.found, hs.ended, hs.started, hs.replaced, fun _ => ⟨k, hk, ?_⟩, hs.entered⟩
    rw [Dict.get?_set, if_pos rfl]

theorem inv_setProcess (hi : ∀ w, Inv w s ms) (hm : ms[i]? = some (some m))
    (hr : m.role = .spawn w₀)
    (hk : m.started = some k) (hreader : m.hasReader = true) (w : String) :
    Inv w { s with processes := s.processes.set w₀ k }
      (ms.set i (some { m with entered := true })) := by
  have hs := (hi w₀).spawned hm hr
  have hb := (hi w₀).booked
  have hcur : ∀ n, (s.processes.set w₀ k).get? w₀ = some n → k = n := by
    intro n hn
    rw [Dict.get?_set, if_pos rfl] at hn
    exact Option.some.inj hn
  obtain ⟨hlt, hw, htasks, hresults⟩ := hs.started k hk
  refine inv_spawn hi hm hr (by rfl) (fun w hw => ?_) ?_ ?_ w
  · exact same_of_os (by rw [Dict.get?_set, if_neg (Ne.symm hw)]) rfl .rfl rfl
  · refine ⟨fun n hn => ?_, hb.balanced, fun n hn => .inl ?_, fun n hn => .inr ?_⟩
    · obtain rfl := hcur n hn
      exact ⟨hlt, hw⟩
    · obtain rfl := hcur n hn
      exact htasks.trans hresults.symm
    · obtain rfl := hcur n hn
      obtain ⟨j, hj, hjr⟩ := hs.hasReader hreader
      obtain rfl : k = j := Option.some.inj (hk.symm.trans hj)
      exact hjr
  · refine ⟨fun h => Bool.noConfusion h, fun h => Bool.noConfusion h, hs.started,
      fun _ _ h => Bool.noConfusion h, hs.hasReader, fun _ => ⟨k, hk, ?_⟩⟩
    rw [Dict.get?_set, if_pos rfl]

theorem inv_discardBusy_spawn (hi : ∀ w, Inv w s ms) (hm : ms[i]? = some (some m))
    (hr : m.role = .spawn w₀) (hentered : m.entered = true) (w : String) :
    Inv w { s with busyWorkers := s.busyWorkers.filter (· ≠ w₀) }
      (ms.set i (some { m with claim := .none })) := by
  have hs := (hi w₀).spawned hm hr
  have hb := (hi w₀).booked
  refine inv_spawn hi hm hr (by rfl) (fun w hw => ?_) ?_ ?_ w
  · exact same_of_os rfl rfl (by simp [hw]) rfl
  · refine ⟨hb.own, hb.balanced, fun n hn => .inl ?_, hb.attached⟩
    obtain ⟨k, hk, hcur⟩ := hs.entered hentered
    obtain rfl : k = n := Option.some.inj (hcur.symm.trans hn)
    obtain ⟨-, -, htasks, hresults⟩ := hs.started k hk
    exact htasks.trans hresults.symm
  · exact ⟨hs.found, hs.ended, hs.started, hs.replaced, hs.hasReader, hs.entered⟩

end Spawning

/-! ### Ending a process -/

theorem Fits.of_finish {x : Option String} (hr : m.role = .finish x)
    (h : w ∈ m.dropped → s.processes.get? w = none) : Fits w m s := by
  refine ⟨?_, fun h' => ?_, fun h' => ?_, fun _ => h⟩
  · rintro (⟨t, h'⟩ | ⟨t, h'⟩)
    · rw [hr] at h'
      cases h'
    · rw [hr] at h'
      cases h'
  · rw [hr] at h'
    cases h'
  · rw [hr] at h'
    cases h'

section Finishing

variable {w₀ : String} {x : Option String}

theorem inv_finish {s' : State F A} (hi : ∀ w, Inv w s ms) (hm : ms[i]? = some (some m))
    (hr : m.role = .finish x) (hc : m.role.concerns w₀) (hrole : m'.role = m.role)
    (hsame : ∀ w, w ≠ w₀ → Same w s s') (hdropped : ∀ w, w ≠ w₀ → w ∈ m'.dropped → w ∈ m.dropped)
    (hbooked : Booked w₀ s') (hself : w₀ ∈ m'.dropped → s'.processes.get? w₀ = none) (w : String) :
    Inv w s' (ms.set i (some m')) := by
  have hno : ∀ {w'}, ¬ m.Tasks w' := by
    rintro w' (⟨t, h⟩ | ⟨t, h⟩)
    · rw [hr] at h
      cases h
    · rw [hr] at h
      cases h
  by_cases hw : w = w₀
  · subst hw
    refine (hi w).update hm hrole hbooked (fun _ => .of_finish (hrole.trans hr) hself) ?_
      fun h => absurd h hno
    exact (hi w).no_others hm hc (by rw [hr]; rfl) _
  · refine (hi w).keep hm hrole (hsame w hw) (fun hcw => ?_) fun h => absurd h hno
    apply Fits.of_finish (hrole.trans hr)
    intro hd
    rw [(hsame w hw).process]
    exact ((hi w).fits i m hm hcw).finished ⟨x, hr⟩ (hdropped w hw hd)

theorem inv_dropProcess_finish (hi : ∀ w, Inv w s ms) (hm : ms[i]? = some (some m))
    (hr : m.role = .finish x) (hc : m.role.concerns w₀) (w : String) :
    Inv w { s with processes := s.processes.erase w₀ }
      (ms.set i (some { m with dropped := w₀ :: m.dropped })) := by
  have hb := (hi w₀).booked
  have hnone : (s.processes.erase w₀).get? w₀ = none := by rw [Dict.get?_erase, if_pos rfl]
  refine inv_finish hi hm hr hc (by rfl) (fun w hw => ?_) (fun w hw hd => ?_) ?_ (fun _ => hnone) w
  · exact same_of_os (by rw [Dict.get?_erase, if_neg (Ne.symm hw)]) rfl .rfl rfl
  · exact List.mem_of_ne_of_mem hw hd
  · refine ⟨fun n hn => ?_, hb.balanced, fun n hn => ?_, fun n hn => ?_⟩ <;>
      · rw [hnone] at hn
        cases hn

theorem inv_dropReader_finish (hi : ∀ w, Inv w s ms) (hm : ms[i]? = some (some m))
    (hr : m.role = .finish x) (hc : m.role.concerns w₀) (hd : w₀ ∈ m.dropped) (w : String) :
    Inv w { s with readers := s.readers.erase w₀ } (ms.set i (some m)) := by
  have hb := (hi w₀).booked
  have hnone := ((hi w₀).fits i m hm hc).finished ⟨x, hr⟩ hd
  refine inv_finish hi hm hr hc rfl (fun w hw => ?_) (fun w _ hd => by exact hd) ?_
    (fun _ => by exact hnone) w
  · exact same_of_os rfl (by rw [Dict.get?_erase, if_neg (Ne.symm hw)]) .rfl rfl
  · refine ⟨hb.own, hb.balanced, hb.claimed, fun n hn => ?_⟩
    rw [hnone] at hn
    cases hn

theorem inv_discardBusy_finish (hi : ∀ w, Inv w s ms) (hm : ms[i]? = some (some m))
    (hr : m.role = .finish x) (hc : m.role.concerns w₀) (hd : w₀ ∈ m.dropped) (w : String) :
    Inv w { s with busyWorkers := s.busyWorkers.filter (· ≠ w₀) }
      (ms.set i (some { m with claim := .none })) := by
  have hb := (hi w₀).booked
  have hnone := ((hi w₀).fits i m hm hc).finished ⟨x, hr⟩ hd
  refine inv_finish hi hm hr hc (by rfl) (fun w hw => ?_) (fun w _ hd => by exact hd) ?_
    (fun _ => by exact hnone) w
  · exact same_of_os rfl rfl (by simp [hw]) rfl
  · refine ⟨hb.own, hb.balanced, fun n hn => ?_, hb.attached⟩
    rw [hnone] at hn
    cases hn

end Finishing

section Switching

variable {w₀ : String}

theorem switch_eq {w' : String} (hr : m.role = .switch w₀) (hc : m.role.concerns w') : w' = w₀ :=
  Mode.May.of_switch (.inl hc) hr

theorem not_tasks_of_switch {w' : String} (hr : m.role = .switch w₀) : ¬ m.Tasks w' := by
  rintro (⟨t, h⟩ | ⟨t, h⟩)
  · rw [hr] at h
    cases h
  · rw [hr] at h
    cases h

theorem Fits.of_switched (hr : m.role = .switch w) (h : Switched w m s) : Fits w m s :=
  .of_parts (by rw [hr]; rfl) (fun h' => absurd h' (not_tasks_of_switch hr)) fun _ => h

/-- A switch takes a free worker whose process it has closed off the books; a call that had found
that process can neither write to it any more nor have a result of it outstanding. -/
theorem inv_dropProcess_switch (hi : ∀ w, Inv w s ms) (hm : ms[i]? = some (some m))
    (hlock : ∀ (j : Nat) (m₁ : Mode), ms[j]? = some (some m₁) → m₁.inLock = true → j = i)
    (hr : m.role = .switch w₀) (hin : m.inLock = true) (hv : m.claim = .vacant)
    (htarget : ∃ proc, m.target = some proc ∧ (proc = none ∨ m.closed = true)) (w : String) :
    Inv w { s with processes := s.processes.erase w₀ }
      (ms.set i (some { m with dropped := w₀ :: m.dropped })) := by
  by_cases hw : w = w₀
  · subst hw
    have hcon : m.role.concerns w := by rw [hr]; rfl
    have hs := ((hi w).fits i m hm hcon).switched hr
    have hb := (hi w).booked
    have hfree := (hs.vacant hv).2
    have hnone : (s.processes.erase w).get? w = none := by rw [Dict.get?_erase, if_pos rfl]
    -- the process on the books is closed and has no task outstanding
    have hclosed : ∀ n, s.processes.get? w = some n →
        (s.proc n).closed = true ∧ (s.proc n).Settled := by
      intro n hn
      refine ⟨?_, (hb.claimed n hn).resolve_right hfree⟩
      obtain ⟨proc, hp, hproc⟩ := htarget
      have hd : w ∉ m.dropped := by
        intro hd
        rw [hs.dropped hin hd] at hn
        cases hn
      obtain rfl := (hs.found hin hd proc hp).symm.trans hn
      exact hs.closed (hproc.resolve_left (by simp)) n hp
    refine (hi w).update hm (by rfl) ?_ ?_ ?_ fun h => absurd h (not_tasks_of_switch hr)
    · refine ⟨fun n hn => ?_, hb.balanced, fun n hn => ?_, fun n hn => ?_⟩ <;>
        · rw [hnone] at hn
          cases hn
    · intro _
      refine Fits.of_switched (by exact hr) ?_
      exact ⟨hs.target, fun _ h => absurd List.mem_cons_self h, hs.closed, fun _ _ => hnone,
        hs.vacant⟩
    · intro j m₁ hji hj h₁
      have hf := (hi w).fits j m₁ hj h₁
      apply Fits.of_parts ((hi w).others_stay hm hcon j m₁ hji hj h₁)
      · intro h
        have ht := hf.tasked h
        refine ⟨fun n hn => ?_, ht.reader, ht.near, ht.meets, ht.polled, ht.vacant, fun hh => ?_⟩
        · obtain ⟨hlt, hw, hcur | ⟨-, hrest⟩⟩ := ht.target n hn
          · exact ⟨hlt, hw, .inr ⟨hnone, hclosed n hcur⟩⟩
          · exact ⟨hlt, hw, .inr ⟨hnone, hrest⟩⟩
        · exact absurd (ht.holds hh).1 hfree
      · intro h
        have hs₁ := hf.switched h
        exact ⟨hs₁.target, fun h => absurd (hlock j m₁ hj h) hji, hs₁.closed,
          fun h => absurd (hlock j m₁ hj h) hji, hs₁.vacant⟩
  · refine (hi w).keep hm (by rfl) ?_ ?_ ?_
    · exact same_of_os (by rw [Dict.get?_erase, if_neg (Ne.symm hw)]) rfl .rfl rfl
    · exact fun hc => absurd (switch_eq hr hc) hw
    · exact fun h => absurd h (not_tasks_of_switch hr)

theorem inv_dropReader_switch (hi : ∀ w, Inv w s ms) (hm : ms[i]? = some (some m))
    (hr : m.role = .switch w₀) (hin : m.inLock = true) (hd : w₀ ∈ m.dropped) (w : String) :
    Inv w { s with readers := s.readers.erase w₀ } (ms.set i (some m)) := by
  by_cases hw : w = w₀
  · subst hw
    have hcon : m.role.concerns w := by rw [hr]; rfl
    have hs := ((hi w).fits i m hm hcon).switched hr
    have hb := (hi w).booked
    have hnone := hs.dropped hin hd
    have hgone : (s.readers.erase w).get? w = none := by rw [Dict.get?_erase, if_pos rfl]
    refine (hi w).update hm rfl ?_ ?_ ?_ fun h => absurd h (not_tasks_of_switch hr)
    · refine ⟨hb.own, hb.balanced, hb.claimed, fun n hn => ?_⟩
      rw [hnone] at hn
      cases hn
    · intro _
      exact .of_switched hr ⟨hs.target, hs.found, hs.closed, hs.dropped, hs.vacant⟩
    · intro j m₁ hji hj h₁
      have hf := (hi w).fits j m₁ hj h₁
      apply Fits.of_parts ((hi w).others_stay hm hcon j m₁ hji hj h₁)
      · intro h
        have ht := hf.tasked h
        exact ⟨ht.target, fun _ _ => .inr hgone, fun _ _ => .inr (.inr hgone), ht.meets, ht.polled,
          ht.vacant, ht.holds⟩
      · intro h
        have hs₁ := hf.switched h
        exact ⟨hs₁.target, hs₁.found, hs₁.closed, hs₁.dropped, hs₁.vacant⟩
  · refine (hi w).keep hm rfl ?_ ?_ ?_
    · exact same_of_os rfl (by rw [Dict.get?_erase, if_neg (Ne.symm hw)]) .rfl rfl
    · exact fun hc => absurd (switch_eq hr hc) hw
    · exact fun h => absurd h (not_tasks_of_switch hr)

theorem inv_discardBusy_switch (hi : ∀ w, Inv w s ms) (hm : ms[i]? = some (some m))
    (hr : m.role = .switch w₀) (hv : m.claim = .vacant) (w : String) :
    Inv w { s with busyWorkers := s.busyWorkers.filter (· ≠ w₀) }
      (ms.set i (some { m with claim := .none })) := by
  have hs := ((hi w₀).fits i m hm (by rw [hr]; rfl)).switched hr
  have hfree := (hs.vacant hv).2
  have hsame : ∀ w, Same w s { s with busyWorkers := s.busyWorkers.filter (· ≠ w₀) } := by
    intro w
    refine same_of_os rfl rfl ?_ rfl
    by_cases hw : w = w₀
    · simp [hw, hfree]
    · simp [hw]
  refine (hi w).keep hm (by rfl) (hsame w) (fun hc => ?_) fun h => absurd h (not_tasks_of_switch hr)
  obtain rfl := switch_eq hr hc
  have hs' := hs.same (hsame w)
  refine Fits.of_switched (by exact hr) ?_
  exact ⟨hs'.target, hs'.found, hs'.closed, hs'.dropped, fun h => Claim.noConfusion h⟩

end Switching

end Effects

/-! ## Every operation -/

section Operations

variable {F : Type} {A : Authority F} {s : State F A} {m : Mode} {ms : List (Option Mode)} {i : Nat}

theorem inv_learn {m' : Mode} {s' : State F A} (hi : ∀ w, Inv w s ms) (hm : ms[i]? = some (some m))
    (hrole : m'.role = m.role) (hsame : ∀ w, Same w s s')
    (hself : ∀ w, Fits w m s → Fits w m' s) (hclaim : m'.claim.holds = true → m.claim.holds = true)
    (w : String) : Inv w s' (ms.set i (some m')) :=
  (hi w).keep hm hrole (hsame w)
    (fun hc => (hself w ((hi w).fits i m hm hc)).same (hi w).booked (hsame w)) fun _ => hclaim

theorem inv_refused {w₀ t : String} (hi : ∀ w, Inv w s ms) (hm : ms[i]? = some (some m))
    (hr : m.role = .send w₀ t) (hc : m.claim = .held) (w : String) :
    Inv w s (ms.set i (some { m with claim := .refused })) := by
  have hh : m.claim.holds = true := by rw [hc]; rfl
  refine inv_learn hi hm (by rfl) (fun w => .refl w s) (fun w hf => ?_) (fun _ => hh) w
  refine ⟨fun h => ?_, fun h => ?_, fun h => ?_, hf.finished⟩
  · have ht := hf.tasked h
    exact ht.claim (fun h => Claim.noConfusion h) fun _ => ht.holds hh
  · rw [show m.role = .switch w from h] at hr
    cases hr
  · rw [show m.role = .spawn w from h] at hr
    cases hr

theorem inv_error {o : Op F} {e : Error} (hi : ∀ w, Inv w s ms) (hm : ms[i]? = some (some m))
    (ho : m.Allows o) (w : String) : Inv w s (ms.set i (some (m.next o (.error e)))) := by
  have hsame : ∀ w, Inv w s (ms.set i (some m)) :=
    inv_learn hi hm rfl (fun w => .refl w s) (fun _ h => h) id
  cases o with
  | write n message => cases message with
    | task t fields =>
      obtain ⟨⟨w₀, hr⟩, hc, -⟩ := ho
      exact inv_refused hi hm hr hc w
    | _ => exact hsame w
  | readlineMatching n awaited => cases awaited <;> exact hsame w
  | _ => exact hsame w

theorem reader_eq_target {n k : Nat} {t : String} (hi : ∀ w, Inv w s ms)
    (hm : ms[i]? = some (some m)) (ho : m.Allows (Op.readlineMatching (F := F) k (.result t)))
    (hn : m.target = some (some n)) : k = n := by
  obtain ⟨hk, hp, _, _, ⟨⟨w₀, hr⟩, -⟩ | ⟨⟨w₀, hr⟩, -⟩⟩ := ho
  · have htasks : m.Tasks w₀ := .inl ⟨t, hr⟩
    exact (((hi w₀).fits i m hm htasks.concerns).tasked htasks).polled n k hn hk hp
  · have htasks : m.Tasks w₀ := .inr ⟨t, hr⟩
    exact (((hi w₀).fits i m hm htasks.concerns).tasked htasks).polled n k hn hk hp

variable [LinearOrder F] [NatCast F] {x : World F A}

theorem inv_writeTask {n : Nat} {t : String} {fields : Reply F} (hi : ∀ w, Inv w s ms)
    (hm : ms[i]? = some (some m)) (ho : m.Allows (Op.write n (.task t fields))) (w : String) :
    Inv w (run (.write n (.task t fields)) x s).2
      (ms.set i (some
        (m.next (.write n (.task t fields)) (run (.write n (.task t fields)) x s).1))) := by
  obtain ⟨⟨w₀, hr⟩, hc, hn, -⟩ := ho
  simp only [run, State.write]
  split
  next => exact inv_refused hi hm hr hc w
  next hopen =>
    split
    next => exact inv_refused hi hm hr hc w
    next => exact inv_write hi hm hr hc hn (by simpa using hopen) w

theorem inv_readResult {k : Nat} {t : String} (hi : ∀ w, Inv w s ms) (hm : ms[i]? = some (some m))
    (hhonest : ∀ n, (s.proc n).Honest) (ho : m.Allows (Op.readlineMatching (F := F) k (.result t)))
    (w : String) : Inv w (run (.readlineMatching k (.result t)) x s).2
      (ms.set i (some (m.next (.readlineMatching k (.result t))
        (run (.readlineMatching k (.result t)) x s).1))) := by
  have hnone : Inv w s (ms.set i (some m)) :=
    inv_learn hi hm rfl (fun w => .refl w s) (fun _ h => h) id w
  obtain ⟨n, hn⟩ : ∃ n, m.target = some (some n) := ho.2.2.imp fun _ h => h.1
  obtain rfl := reader_eq_target hi hm ho hn
  have hclaim : (∃ w₀, m.Tasks w₀) ∧ m.claim.holds = false := by
    obtain ⟨-, -, _, _, ⟨⟨w₀, hr⟩, hc, -⟩ | ⟨⟨w₀, hr⟩, hc⟩⟩ := ho
    · exact ⟨⟨w₀, .inl ⟨t, hr⟩⟩, by rw [hc]; rfl⟩
    · exact ⟨⟨w₀, .inr ⟨t, hr⟩⟩, by rw [hc]; rfl⟩
  obtain ⟨⟨w₀, htasks⟩, hc⟩ := hclaim
  simp only [run, State.readlineMatching]
  split
  next event p htake =>
    cases x.flag with
    | true => exact inv_take hi hm htasks hc hn (hhonest k) htake w
    | false => exact hnone
  next => exact hnone

theorem inv_readline {k : Nat} (hi : ∀ w, Inv w s ms) (hm : ms[i]? = some (some m))
    (hhonest : ∀ n, (s.proc n).Honest) (ho : m.Allows (Op.readline (F := F) k)) (w : String) :
    Inv w (run (.readline k) x s).2 (ms.set i (some m)) := by
  obtain ⟨⟨w₀, hr⟩, hk⟩ := ho
  have htasks := (((hi w₀).spawned hm hr).started k hk).2.2.1
  refine inv_learn hi hm rfl (fun w => ?_) (fun _ h => h) id w
  simp only [run, State.readline]
  split
  next line rest hunread =>
    cases x.flag with
    | false => exact .refl w s
    | true =>
      have hid := no_result (hhonest k) htasks (by simp [hunread] : line ∈ _)
      refine same_setProc rfl fun _ => ⟨rfl, rfl, ?_, id, id⟩
      rw [results_taken, hid]
      exact List.append_nil _
  next => exact .refl w s

theorem inv_lock (hi : ∀ w, Inv w s ms) (hm : ms[i]? = some (some m))
    (ho : m.Allows (.lock : Op F)) (w : String) :
    Inv w (run .lock x s).2 (ms.set i (some (m.next .lock (run .lock x s).1))) := by
  refine inv_learn hi hm (by rfl) (fun w => ?_) (fun w hf => fits_lock hf ho.2) (fun h => h) w
  exact same_of_os rfl rfl .rfl rfl

theorem inv_unlock (hi : ∀ w, Inv w s ms) (hm : ms[i]? = some (some m)) (w : String) :
    Inv w (run .unlock x s).2 (ms.set i (some (m.next .unlock (run .unlock x s).1))) := by
  refine inv_learn hi hm (by rfl) (fun w => ?_) (fun w hf => fits_unlock hf) (fun h => ?_) w
  · exact same_of_os rfl rfl .rfl rfl
  · rwa [← holds_leave]

theorem inv_poll {n : Nat} (hi : ∀ w, Inv w s ms) (hm : ms[i]? = some (some m)) (w : String) :
    Inv w (run (.poll n) x s).2 (ms.set i (some (m.next (.poll n) (run (.poll n) x s).1))) := by
  simp only [Mode.next, run]
  split
  next hn =>
    exact inv_learn hi hm (by rfl) (fun w => same_poll x) (fun w hf => fits_poll hf hn)
      (fun h => h) w
  next => exact inv_learn hi hm rfl (fun w => same_poll x) (fun _ h => h) id w

theorem inv_isBusy {w' : String} (hi : ∀ w, Inv w s ms) (hm : ms[i]? = some (some m))
    (ho : m.Allows (.isBusy w' : Op F)) (w : String) :
    Inv w (run (.isBusy w') x s).2
      (ms.set i (some (m.next (.isBusy w') (run (.isBusy w') x s).1))) := by
  simp only [Mode.next, run]
  split
  next h =>
    refine inv_learn hi hm (by rfl) (fun w => .refl w s)
      (fun w hf => fits_isBusy hf h.1 (ho h.1)) (fun hh => ?_) w
    simp only at hh
    split at hh <;> cases hh
  next => exact inv_learn hi hm rfl (fun w => .refl w s) (fun _ h => h) id w

/-- Only a call that has the claim may give the worker free. -/
theorem inv_discards {w' : String} (hi : ∀ w, Inv w s ms) (hm : ms[i]? = some (some m))
    (ho : m.Allows (.discardBusy w' : Op F)) (w : String) :
    Inv w (run (.discardBusy w') x s).2
      (ms.set i (some (m.next (.discardBusy w') (run (.discardBusy w') x s).1))) := by
  simp only [Mode.Allows] at ho
  have hholds : ∀ {c : Claim}, c = .refused ∨ c = .taken → c.holds = true := by
    rintro c (rfl | rfl) <;> rfl
  split at ho
  next w₀ t hr =>
    obtain ⟨rfl, hc⟩ := ho
    exact inv_discardBusy hi hm (.inl ⟨t, hr⟩) (hholds hc) w
  next w₀ t hr =>
    obtain ⟨rfl, hc⟩ := ho
    exact inv_discardBusy hi hm (.inr ⟨t, hr⟩) (hholds hc) w
  next w₀ hr =>
    obtain ⟨rfl, -, hv⟩ := ho
    exact inv_discardBusy_switch hi hm hr hv w
  next w₀ hr =>
    obtain ⟨rfl, hentered⟩ := ho
    exact inv_discardBusy_spawn hi hm hr hentered w
  next w₀ hr => exact inv_discardBusy_finish hi hm hr ho.2 ho.1 w
  next => exact ho.elim

theorem inv_closePipes {n : Nat} (hi : ∀ w, Inv w s ms) (hm : ms[i]? = some (some m))
    (w : String) : Inv w (run (.closePipes n) x s).2
      (ms.set i (some (m.next (.closePipes n) (run (.closePipes n) x s).1))) := by
  simp only [Mode.next, run]
  split
  next hn =>
    refine (hi w).keep hm (by rfl) (same_closePipes x) (fun hc => ?_) fun _ h => h
    have hf := ((hi w).fits i m hm hc).same (hi w).booked (same_closePipes (n := n) x)
    refine fits_closed hf hn ?_
    rw [proc_setProc]
    split
    next => rfl
    next hlt =>
      have hge : s.os.length ≤ n := by simpa using hlt
      rw [State.proc, List.getElem?_eq_none hge]
      rfl
  next => exact inv_learn hi hm rfl (fun w => same_closePipes x) (fun _ h => h) id w

/-- Every operation that the discipline allows keeps the invariant. -/
theorem inv_run (hi : ∀ w, Inv w s ms) (hm : ms[i]? = some (some m))
    (hlock : m.inLock = true → ∀ (j : Nat) (m₁ : Mode), ms[j]? = some (some m₁) →
      m₁.inLock = true → j = i)
    (hhonest : ∀ n, (s.proc n).Honest) {o : Op F} (ho : m.Allows o) (w : String) :
    Inv w (run o x s).2 (ms.set i (some (m.next o (run o x s).1))) := by
  by_cases hq : Quiet o
  · rw [next_quiet hq]
    exact inv_learn hi hm rfl (fun w => same_quiet hq x) (fun _ h => h) id w
  cases o with
  | lock => exact inv_lock hi hm ho w
  | unlock => exact inv_unlock hi hm w
  | processOf w' =>
    refine (hi w).keep hm (by rfl) (.refl w s) (fun hc => ?_) fun _ h => h
    exact fits_processOf ((hi w).fits i m hm hc) (hi w).booked ho
  | readerOf w' =>
    exact inv_learn hi hm (by rfl) (fun w => .refl w s) (fun w hf => fits_readerOf hf ho)
      (fun h => h) w
  | poll n => exact inv_poll hi hm w
  | isBusy w' => exact inv_isBusy hi hm ho w
  | addBusy w' =>
    obtain ⟨⟨t, hr⟩, hin, hv⟩ := ho
    exact inv_addBusy hi hm (hlock hin) hr hv w
  | discardBusy w' => exact inv_discards hi hm ho w
  | write n message => cases message with
    | task t fields => exact inv_writeTask hi hm ho w
    | _ => exact absurd rfl hq
  | readlineMatching n awaited => cases awaited with
    | result t => exact inv_readResult hi hm hhonest ho w
    | reconfigured requestId => exact absurd rfl hq
    | control eventType w' =>
      rw [Quiet, Op.quiet, decide_eq_true_eq] at hq
      exact absurd ho hq
  | readline n => exact inv_readline hi hm hhonest ho w
  | popen argv cwd =>
    obtain ⟨w₀, hr, hargv, -, hreader, hentered, htarget⟩ := ho
    exact inv_popen hi hm hr hargv hreader hentered htarget w
  | setReader w' n => exact inv_setReader hi hm ho.1 ho.2.1 ho.2.2 w
  | setProcess w' n => exact inv_setProcess hi hm ho.1 ho.2.1 ho.2.2 w
  | closePipes n => exact inv_closePipes hi hm w
  | dropProcess w' =>
    obtain ⟨hcon, ⟨x', hr⟩ | ⟨hr, hin, hv, htarget⟩⟩ := ho
    · exact inv_dropProcess_finish hi hm hr hcon w
    · exact inv_dropProcess_switch hi hm (hlock hin) hr hin hv htarget w
  | dropReader w' =>
    obtain ⟨hcon, hd, ⟨x', hr⟩ | ⟨hr, hin⟩⟩ := ho
    · exact inv_dropReader_finish hi hm hr hcon hd w
    · exact inv_dropReader_switch hi hm hr hin hd w
  | _ => exact absurd rfl hq

end Operations

end SubagentBridge.WorkerProcess
