import SubagentBridge.Library.Interleaving

/-! Threads of one process: procedures over some of the operations of a larger signature, and a
fixed set of calls on one shared state. -/

namespace Library

structure Embedding (S S' : Signature) where
  op : S.Op → S'.Op
  ret : (o : S.Op) → S'.Ret (op o) → S.Ret o

namespace Proc

variable {S S' : Signature} {ε α : Type}

def lift (E : Embedding S S') : Proc S ε α → Proc S' ε α
  | .ret a => .ret a
  | .raise e => .raise e
  | .call o k => .call (E.op o) fun r => (k (r.map (E.ret o))).lift E

section Lift

variable {E : Embedding S S'} {P : Protocol S ε} {P' : Protocol S' ε}
variable {Q : P.Mode → Except ε α → Prop} {Q' : P'.Mode → Except ε α → Prop}

structure Simulates (E : Embedding S S') (P : Protocol S ε) (P' : Protocol S' ε)
    (R : P.Mode → P'.Mode → Prop) : Prop where
  allow : ∀ m m' o, R m m' → P.allow m o → P'.allow m' (E.op o)
  answer : ∀ o r, P'.answer (E.op o) r → P.answer o (r.map (E.ret o))
  next : ∀ m m' o r, R m m' → P.allow m o → P'.answer (E.op o) r →
    R (P.next m o (r.map (E.ret o))) (P'.next m' (E.op o) r)

theorem Follows.lift {R : P.Mode → P'.Mode → Prop} {m : P.Mode} {m' : P'.Mode} {p : Proc S ε α}
    (hp : p.Follows P Q m) (hs : Simulates E P P' R) (hR : R m m')
    (hQ : ∀ m m' r, R m m' → Q m r → Q' m' r) : (p.lift E).Follows P' Q' m' := by
  induction p generalizing m m' with
  | ret a => exact hQ _ _ _ hR hp
  | raise e => exact hQ _ _ _ hR hp
  | call o k ih =>
    refine ⟨hs.allow m m' o hR hp.1, fun r hr => ?_⟩
    exact ih _ (hp.2 _ (hs.answer o r hr)) (hs.next m m' o r hR hp.1 hr)

end Lift

/-! ## What a history keeps until the end -/

section Throughout

variable {ι : Type} {allow : ι → List (Event S ε) → S.Op → Prop}
variable {answer : (o : S.Op) → Except ε (S.Ret o) → Prop} {K : List (Event S ε) → Prop}
variable {Q : ι × List (Event S ε) → Except ε α → Prop} {i : ι} {h : List (Event S ε)}
variable {p : Proc S ε α}

/-- A condition that comes true only if it was true before is true of a history from which a
procedure ends with it. -/
theorem Follows.now (hp : p.Follows (.ofHistory allow answer) Q (i, h))
    (hQ : ∀ m r, Q m r → K m.2) (hanswer : ∀ o, ∃ r, answer o r)
    (hclosed : ∀ h e, K (h ++ [e]) → K h) : K h := by
  induction p generalizing h with
  | ret a => exact hQ _ _ hp
  | raise e => exact hQ _ _ hp
  | call o k ih =>
    obtain ⟨r, hr⟩ := hanswer o
    exact hclosed h ⟨o, r⟩ (ih r (hp.2 r hr))

theorem Follows.throughout (hp : p.Follows (.ofHistory allow answer) Q (i, h))
    (hQ : ∀ m r, Q m r → K m.2) (hanswer : ∀ o, ∃ r, answer o r)
    (hclosed : ∀ h e, K (h ++ [e]) → K h) :
    p.Follows (.ofHistory (fun _ h o => ∀ r, answer o r → K (h ++ [⟨o, r⟩])) answer) Q (i, h) := by
  induction p generalizing h with
  | ret a => exact hp
  | raise e => exact hp
  | call o k ih =>
    exact ⟨fun r hr => (hp.2 r hr).now hQ hanswer hclosed, fun r hr => ih r (hp.2 r hr)⟩

end Throughout

end Proc

namespace Machine

variable {M : Machine} {P : Protocol M.sig M.Err} {init : M.Request → P.Mode}
variable {Q : M.Request → P.Mode → Except M.Err M.Res → Prop}
variable {G : M.Config → M.Label → Prop} {c₀ c : M.Config} {ls : List M.Label}

/-- No call arrives, and the operations give the answers that the protocol expects. -/
structure Closed (P : Protocol M.sig M.Err) (G : M.Config → M.Label → Prop) : Prop where
  start : ∀ c q, ¬ G c (.start q)
  answer : ∀ c i w o, G c (.act i w) → M.possible o w c.state → P.answer o (M.exec o w c.state).1

theorem disciplined_from (hc₀ : c₀.Disciplined P init Q) (hclosed : Closed P G)
    (hrun : Path step G c₀ ls c) : c.Disciplined P init Q := by
  refine hrun.invariant hc₀ ?_
  intro c l c' ih hG hs a ha
  obtain ⟨i, ha⟩ := List.getElem?_of_mem ha
  obtain ha | ⟨q, rfl, -⟩ | ⟨w, q, o, k, h, rfl, hact, rfl⟩ := call_step hs ha
  · exact ih a (List.mem_of_getElem? ha)
  · exact absurd hG (hclosed.start c q)
  · have hf := (Proc.follows_call o k).mp (ih _ (List.mem_of_getElem? hact.call))
    simpa [Activity.mode] using hf.2 _ (hclosed.answer c i w o hG hact.possible)

theorem Config.Disciplined.ended (hc : c.Disciplined P init Q) {a : M.Activity}
    (ha : a ∈ c.calls) {r : Except M.Err M.Res} (hr : a.proc.result = some r) :
    Q a.request (a.mode P init) r := by
  have hf := hc a ha
  cases hp : a.proc with
  | ret v =>
    rw [hp] at hf hr
    cases hr
    exact hf
  | raise e =>
    rw [hp] at hf hr
    cases hr
    exact hf
  | call o k =>
    rw [hp] at hr
    cases hr

theorem threads_invariant {J : M.State → List P.Mode → Prop} (hc₀ : c₀.Disciplined P init Q)
    (hclosed : Closed P G) (h₀ : J c₀.state (c₀.modes P init))
    (hact : ∀ c i w c' q o k h, G c (.act i w) → Acts c i w c' q o k h →
      J c.state (c.modes P init) → P.allow (P.after (init q) h) o →
      J (M.exec o w c.state).2
        ((c.modes P init).set i (P.next (P.after (init q) h) o (M.exec o w c.state).1)))
    (hrun : Path step G c₀ ls c) : J c.state (c.modes P init) := by
  induction hrun with
  | refl => exact h₀
  | @tail c c' ls l hp hG hs ih =>
    cases l with
    | start q => exact absurd hG (hclosed.start c q)
    | act i w =>
      obtain ⟨q, o, k, h, ha⟩ := step_act hs
      have hf := (Proc.follows_call o k).mp
        (disciplined_from hc₀ hclosed hp _ (List.mem_of_getElem? ha.call))
      rw [ha.modes, ha.result]
      exact hact c i w c' q o k h hG ha ih hf.1

end Machine

end Library
