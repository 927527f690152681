import SubagentBridge.Library.Interleaving

/-! Locks: what is done in any case at the end of a procedure, that at most one call is inside a
section that a lock guards, and invariants that speak of the calls that are not over. -/

namespace Library

namespace Proc

variable {S : Signature} {ε α : Type}

def ensuring : Proc S ε α → Proc S ε Unit → Proc S ε α
  | .ret a, f => f.bind fun _ => .ret a
  | .raise e, f => f.bind fun _ => .raise e
  | .call o k, f => .call o fun r => (k r).ensuring f

def within (acquire release : Proc S ε Unit) (body : Proc S ε α) : Proc S ε α :=
  acquire.bind fun _ => body.ensuring release

variable {P : Protocol S ε} {Q : P.Mode → Except ε α → Prop} {m : P.Mode}

def lastPost (Q : P.Mode → Except ε α → Prop) (r : Except ε α) : P.Mode → Except ε Unit → Prop
  | m, .ok _ => Q m r
  | m, .error e => Q m (.error e)

theorem Follows.ensuring {M : P.Mode → Except ε α → Prop} {p : Proc S ε α} {f : Proc S ε Unit}
    (hp : p.Follows P M m) (hf : ∀ m r, M m r → f.Follows P (lastPost Q r) m) :
    (p.ensuring f).Follows P Q m := by
  induction p generalizing m with
  | ret a => exact (hf m (.ok a) hp).bind (fun _ _ h => h) fun _ _ h => h
  | raise e => exact (hf m (.error e) hp).bind (fun _ _ h => h) fun _ _ h => h
  | call o k ih => exact ⟨hp.1, fun r hr => ih r (hp.2 r hr)⟩

theorem Only.ensuring {A : S.Op → Prop} {p : Proc S ε α} {f : Proc S ε Unit} (hp : p.Only A)
    (hf : f.Only A) : (p.ensuring f).Only A := by
  induction p with
  | ret a => exact hf.bind fun _ => trivial
  | raise e => exact hf.bind fun _ => trivial
  | call o k ih => exact ⟨hp.1, fun r => ih r (hp.2 r)⟩

theorem Only.within {A : S.Op → Prop} {acquire release : Proc S ε Unit} {body : Proc S ε α}
    (ha : acquire.Only A) (hr : release.Only A) (hb : body.Only A) :
    (within acquire release body).Only A :=
  ha.bind fun _ => hb.ensuring hr

end Proc

/-! ## Mutual exclusion -/

namespace Machine

variable {M : Machine} (P : Protocol M.sig M.Err) (inside : P.Mode → Bool) (held : M.State → Bool)

inductive Grips (m m' : P.Mode) (s s' : M.State) : Prop
  | keep : inside m' = inside m → held s' = held s → Grips m m' s s'
  | take : inside m = false → held s = false → inside m' = true → held s' = true → Grips m m' s s'
  | drop : inside m = true → inside m' = false → held s' = false → Grips m m' s s'

structure Exclusive (s : M.State) (ms : List P.Mode) : Prop where
  unique : ∀ (i j : Nat) (m m' : P.Mode), ms[i]? = some m → ms[j]? = some m' → inside m = true →
    inside m' = true →
    i = j
  held_iff : held s = true ↔ ∃ (i : Nat) (m : P.Mode), ms[i]? = some m ∧ inside m = true

variable {P inside held} {s s' : M.State} {ms : List P.Mode} {i : Nat} {m m' : P.Mode}

theorem exclusive_nil (h : held s = false) : Exclusive P inside held s [] where
  unique := by simp
  held_iff := by simp [h]

theorem Exclusive.start (he : Exclusive P inside held s ms) (hm : inside m = false) :
    Exclusive P inside held s (ms ++ [m]) := by
  have hold : ∀ {i : Nat} {m' : P.Mode}, (ms ++ [m])[i]? = some m' → inside m' = true →
    ms[i]? = some m' := by
    intro i m' hi hin
    rw [List.getElem?_append] at hi
    split at hi
    next => exact hi
    next =>
      rw [List.mem_singleton.mp (List.mem_of_getElem? hi), hm] at hin
      cases hin
  constructor
  · intro i j m₁ m₂ hi hj h₁ h₂
    exact he.unique i j m₁ m₂ (hold hi h₁) (hold hj h₂) h₁ h₂
  · rw [he.held_iff]
    constructor
    · rintro ⟨i, m', hi, hin⟩
      exact ⟨i, m', List.getElem?_append_left (List.getElem?_eq_some_iff.mp hi).1 ▸ hi, hin⟩
    · rintro ⟨i, m', hi, hin⟩
      exact ⟨i, m', hold hi hin, hin⟩

theorem Exclusive.step (he : Exclusive P inside held s ms) (hi : ms[i]? = some m)
    (hg : Grips P inside held m m' s s') : Exclusive P inside held s' (ms.set i m') := by
  have hlt := (List.getElem?_eq_some_iff.mp hi).1
  have hself : (ms.set i m')[i]? = some m' := List.getElem?_set_self hlt
  have hne : ∀ {j : Nat}, j ≠ i → (ms.set i m')[j]? = ms[j]? := fun hj =>
    List.getElem?_set_ne (Ne.symm hj)
  -- where the others are inside, this call was inside too, or the lock was held
  have hother : ∀ {j : Nat} {m₁ : P.Mode}, j ≠ i → (ms.set i m')[j]? = some m₁ → inside m₁ = true →
      ms[j]? = some m₁ ∧ inside m = false ∧ held s = true := by
    intro j m₁ hj hm₁ hin
    rw [hne hj] at hm₁
    refine ⟨hm₁, ?_, he.held_iff.mpr ⟨j, m₁, hm₁, hin⟩⟩
    by_contra hm
    exact hj (he.unique j i m₁ m hm₁ hi hin (by simpa using hm))
  cases hg with
  | keep hm hs =>
    constructor
    · intro j k m₁ m₂ hj hk h₁ h₂
      have hback : ∀ {l : Nat} {n : P.Mode}, (ms.set i m')[l]? = some n → inside n = true →
          ∃ n', ms[l]? = some n' ∧ inside n' = true := by
        intro l n hl hn
        by_cases hli : l = i
        · subst hli
          rw [hself] at hl
          obtain rfl := Option.some.inj hl
          exact ⟨m, hi, hm ▸ hn⟩
        · exact ⟨n, (hother hli hl hn).1, hn⟩
      obtain ⟨n₁, hn₁, h₁⟩ := hback hj h₁
      obtain ⟨n₂, hn₂, h₂⟩ := hback hk h₂
      exact he.unique j k n₁ n₂ hn₁ hn₂ h₁ h₂
    · rw [hs, he.held_iff]
      constructor
      · rintro ⟨j, n, hj, hn⟩
        by_cases hji : j = i
        · subst hji
          obtain rfl := Option.some.inj (hi.symm.trans hj)
          exact ⟨j, m', hself, hm.trans hn⟩
        · exact ⟨j, n, (hne hji).trans hj, hn⟩
      · rintro ⟨j, n, hj, hn⟩
        by_cases hji : j = i
        · subst hji
          rw [hself] at hj
          obtain rfl := Option.some.inj hj
          exact ⟨j, m, hi, hm ▸ hn⟩
        · exact ⟨j, n, (hother hji hj hn).1, hn⟩
  | take hm hs hm' hs' =>
    have hothers : ∀ {j : Nat} {m₁ : P.Mode},
      (ms.set i m')[j]? = some m₁ → inside m₁ = true → j = i := by
      intro j m₁ hj hin
      by_contra hji
      rw [(hother hji hj hin).2.2] at hs
      cases hs
    constructor
    · intro j k m₁ m₂ hj hk h₁ h₂
      exact (hothers hj h₁).trans (hothers hk h₂).symm
    · exact ⟨fun _ => ⟨i, m', hself, hm'⟩, fun _ => hs'⟩
  | drop hm hm' hs' =>
    have hnone : ∀ {j : Nat} {m₁ : P.Mode}, (ms.set i m')[j]? = some m₁ → inside m₁ ≠ true := by
      intro j m₁ hj hin
      by_cases hji : j = i
      · subst hji
        rw [hself] at hj
        rw [← Option.some.inj hj, hm'] at hin
        cases hin
      · rw [(hother hji hj hin).2.1] at hm
        cases hm
    constructor
    · intro j k m₁ m₂ hj hk h₁ h₂
      exact absurd h₁ (hnone hj)
    · constructor
      · intro h
        rw [hs'] at h
        cases h
      · rintro ⟨j, n, hj, hn⟩
        exact absurd hn (hnone hj)

/-! ## Calls that are not over -/

section Live

variable {M : Machine} (P : Protocol M.sig M.Err) (init : M.Request → P.Mode)

def Activity.live (a : M.Activity) : Option P.Mode :=
  if a.proc.result.isNone then some (a.mode P init) else none

def Config.live (c : M.Config) : List (Option P.Mode) := c.calls.map fun a => a.live P init

variable {P init} {c : M.Config} {i : Nat} {m : P.Mode}

theorem live_getElem? (h : (c.live P init)[i]? = some (some m)) :
    (c.modes P init)[i]? = some m ∧ ∃ a ∈ c.calls, a.proc.result = none ∧ a.mode P init = m := by
  rw [Config.live, List.getElem?_map] at h
  obtain ⟨a, ha, hm⟩ := Option.map_eq_some_iff.mp h
  rw [Activity.live] at hm
  split at hm
  next hr =>
    obtain rfl := Option.some.inj hm
    exact ⟨by rw [Config.modes, List.getElem?_map, ha]; rfl, a, List.mem_of_getElem? ha,
      Option.isNone_iff_eq_none.mp hr, rfl⟩
  next => cases hm

theorem Acts.live_at (init : M.Request → P.Mode) {c' : M.Config} {w : M.World}
    {q : M.Request} {o : M.sig.Op}
    {k : Except M.Err (M.sig.Ret o) → Proc M.sig M.Err M.Res} {h : List (Event M.sig M.Err)}
    (ha : Acts c i w c' q o k h) : (c.live P init)[i]? = some (some (P.after (init q) h)) := by
  simp [Config.live, ha.call, Activity.live, Proc.result, Activity.mode]

theorem live_or_over {J : List (Option P.Mode) → Prop} {ms : List (Option P.Mode)}
    (hover : ∀ ms i, J ms → J (ms.set i none)) {a : M.Activity}
    (h : J (ms.set i (some (a.mode P init)))) : J (ms.set i (a.live P init)) := by
  rw [Activity.live]
  split
  next => exact h
  next => simpa using hover _ i h

variable {J : M.State → List (Option P.Mode) → Prop}
variable {Q : M.Request → P.Mode → Except M.Err M.Res → Prop}
variable {G : M.Config → M.Label → Prop} {s₀ : M.State} {ls : List M.Label}

theorem live_invariant (hbody : ∀ q, (M.body q).Follows P (Q q) (init q))
    (hans : Answered P G s₀) (h₀ : J s₀ [])
    (hover : ∀ s ms i, J s ms → J s (ms.set i none))
    (hstart : ∀ (c : M.Config) q, G c (.start q) → J c.state (c.live P init) →
      J c.state (c.live P init ++ [some (init q)]))
    (hact : ∀ ls c i w c' q o k h, Path step G (M.initial s₀) ls c → G c (.act i w) →
      Acts c i w c' q o k h → J c.state (c.live P init) → P.allow (P.after (init q) h) o →
      J (M.exec o w c.state).2
        ((c.live P init).set i (some (P.next (P.after (init q) h) o (M.exec o w c.state).1))))
    (hrun : Path step G (M.initial s₀) ls c) : J c.state (c.live P init) := by
  induction hrun with
  | refl => exact h₀
  | @tail c c' ls l hp hG hs ih =>
    cases l with
    | start q =>
      rw [step_start hs]
      have hnew := hstart c q hG ih
      have hset : ∀ x : Option P.Mode, c.live P init ++ [x] =
          (c.live P init ++ [some (init q)]).set c.calls.length x := by
        intro x
        simp [Config.live]
      have hlive : Config.live P init { c with calls := c.calls ++ [⟨q, M.body q, []⟩] } =
          c.live P init ++ [(⟨q, M.body q, []⟩ : M.Activity).live P init] := by
        simp [Config.live]
      rw [hlive, hset]
      apply live_or_over (hover c.state)
      rw [← hset]
      exact hnew
    | act i w =>
      obtain ⟨q, o, k, h, ha⟩ := step_act hs
      have hstep := hact ls c i w c' q o k h hp hG ha ih (ha.allowed hbody hans hp)
      rw [ha.result]
      have hlive : Config.live P init ⟨(M.exec o w c.state).2, c.calls.set i
          ⟨q, k (M.exec o w c.state).1, h ++ [⟨o, (M.exec o w c.state).1⟩]⟩⟩ =
          (c.live P init).set i ((⟨q, k (M.exec o w c.state).1,
            h ++ [⟨o, (M.exec o w c.state).1⟩]⟩ : M.Activity).live P init) := by
        simp [Config.live, List.map_set]
      rw [hlive]
      apply live_or_over (hover _)
      simpa [Activity.mode] using hstep

end Live

end Machine

end Library
