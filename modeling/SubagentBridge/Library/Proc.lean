import SubagentBridge.Library.Runs

/-! Procedures as trees of operations on a component.  A procedure decides what
to do next from the answers it got, so a call that is preempted between two of
its operations is a subtree, and a protocol on operations is a predicate that
walks the tree. -/

namespace Library

/-- The operations of a component and the answers they give. -/
structure Signature where
  Op : Type
  Ret : Op → Type

/-- An operation answers a value or raises; a handler may catch what it raises. -/
inductive Proc (S : Signature) (ε α : Type) : Type
  | ret : α → Proc S ε α
  | raise : ε → Proc S ε α
  | call : (o : S.Op) → (Except ε (S.Ret o) → Proc S ε α) → Proc S ε α

namespace Proc

variable {S : Signature} {ε α β : Type}

def bind : Proc S ε α → (α → Proc S ε β) → Proc S ε β
  | .ret a, f => f a
  | .raise e, _ => .raise e
  | .call o k, f => .call o fun r => (k r).bind f

def tryCatch : Proc S ε α → (ε → Proc S ε α) → Proc S ε α
  | .ret a, _ => .ret a
  | .raise e, f => f e
  | .call o k, f => .call o fun r => (k r).tryCatch f

def ofExcept : Except ε α → Proc S ε α
  | .ok a => .ret a
  | .error e => .raise e

def op (o : S.Op) : Proc S ε (S.Ret o) := .call o ofExcept

instance : Monad (Proc S ε) where
  pure := .ret
  bind := .bind

def require (p : Prop) [Decidable p] (e : ε) : Proc S ε Unit := if p then .ret () else .raise e

def and (b : Bool) (p : Proc S ε Bool) : Proc S ε Bool := if b then p else .ret false

def when (p : Prop) [Decidable p] (body : Proc S ε Unit) : Proc S ε Unit :=
  if p then body else .ret ()

def forEach {ι : Type} : List ι → (ι → Proc S ε Unit) → Proc S ε Unit
  | [], _ => .ret ()
  | x :: xs, f => (f x).bind fun _ => forEach xs f

def fold {ι : Type} (f : β → ι → Proc S ε β) : β → List ι → Proc S ε β
  | b, [] => .ret b
  | b, x :: xs => (f b x).bind fun b => fold f b xs

@[simp] theorem pure_eq (a : α) : (pure a : Proc S ε α) = .ret a := rfl

@[simp] theorem bind_eq (p : Proc S ε α) (f : α → Proc S ε β) : p >>= f = p.bind f := rfl

theorem bind_assoc {γ : Type} (p : Proc S ε α) (f : α → Proc S ε β) (g : β → Proc S ε γ) :
    (p.bind f).bind g = p.bind fun a => (f a).bind g := by
  induction p with
  | ret a => rfl
  | raise e => rfl
  | call o k ih => exact congrArg (Proc.call o) (funext ih)

def result : Proc S ε α → Option (Except ε α)
  | .ret a => some (.ok a)
  | .raise e => some (.error e)
  | .call _ _ => none

end Proc

structure Event (S : Signature) (ε : Type) where
  op : S.Op
  ans : Except ε (S.Ret op)

/-- A protocol: which operations a mode allows, which answers can come back, and
the mode after an operation was answered. -/
structure Protocol (S : Signature) (ε : Type) where
  Mode : Type
  allow : Mode → S.Op → Prop
  answer : (o : S.Op) → Except ε (S.Ret o) → Prop
  next : Mode → (o : S.Op) → Except ε (S.Ret o) → Mode

namespace Protocol

variable {S : Signature} {ε α β : Type} (P : Protocol S ε)

def after (m : P.Mode) (h : List (Event S ε)) : P.Mode :=
  h.foldl (fun m e => P.next m e.op e.ans) m

@[simp] theorem after_nil (m : P.Mode) : P.after m [] = m := rfl

@[simp] theorem after_snoc (m : P.Mode) (h : List (Event S ε)) (e : Event S ε) :
    P.after m (h ++ [e]) = P.next (P.after m h) e.op e.ans := by
  simp [after]

abbrev ofHistory {ι : Type} (allow : ι → List (Event S ε) → S.Op → Prop)
    (answer : (o : S.Op) → Except ε (S.Ret o) → Prop) : Protocol S ε where
  Mode := ι × List (Event S ε)
  allow m o := allow m.1 m.2 o
  answer := answer
  next m o r := (m.1, m.2 ++ [⟨o, r⟩])

theorem after_ofHistory {ι : Type} (allow : ι → List (Event S ε) → S.Op → Prop)
    (answer : (o : S.Op) → Except ε (S.Ret o) → Prop) (q : ι) (h h' : List (Event S ε)) :
    (ofHistory allow answer).after (q, h) h' = (q, h ++ h') := by
  induction h' generalizing h with
  | nil => simp
  | cons e h' ih => simpa [after] using ih (h ++ [e])

end Protocol

/-- `p.Follows P Q m`: from mode `m` the procedure performs allowed operations
only, whatever the answers are, and ends in a mode and outcome that satisfy `Q`. -/
def Proc.Follows {S : Signature} {ε α : Type} (P : Protocol S ε)
    (Q : P.Mode → Except ε α → Prop) : P.Mode → Proc S ε α → Prop
  | m, .ret a => Q m (.ok a)
  | m, .raise e => Q m (.error e)
  | m, .call o k => P.allow m o ∧ ∀ r, P.answer o r → (k r).Follows P Q (P.next m o r)

namespace Proc

variable {S : Signature} {ε α β : Type} {P : Protocol S ε}
variable {Q Q' : P.Mode → Except ε α → Prop} {m : P.Mode}

@[simp] theorem follows_ret (a : α) : (ret a : Proc S ε α).Follows P Q m ↔ Q m (.ok a) := Iff.rfl

@[simp] theorem follows_raise (e : ε) :
    (raise e : Proc S ε α).Follows P Q m ↔ Q m (.error e) := Iff.rfl

theorem follows_call (o : S.Op) (k : Except ε (S.Ret o) → Proc S ε α) :
    (call o k).Follows P Q m ↔
      P.allow m o ∧ ∀ r, P.answer o r → (k r).Follows P Q (P.next m o r) := Iff.rfl

theorem Follows.mono {p : Proc S ε α} (h : p.Follows P Q m)
    (hQ : ∀ m r, Q m r → Q' m r) : p.Follows P Q' m := by
  induction p generalizing m with
  | ret a => exact hQ _ _ h
  | raise e => exact hQ _ _ h
  | call o k ih => exact ⟨h.1, fun r hr => ih r (h.2 r hr)⟩

/-- The postcondition of the first part of a sequence: the second part runs after
a value, an error ends both. -/
def seqPost {Q : P.Mode → Except ε β → Prop} (f : α → Proc S ε β) :
    P.Mode → Except ε α → Prop
  | m, .ok a => (f a).Follows P Q m
  | m, .error e => Q m (.error e)

theorem follows_bind {Q : P.Mode → Except ε β → Prop} (p : Proc S ε α) (f : α → Proc S ε β) :
    (p.bind f).Follows P Q m ↔ p.Follows P (seqPost (Q := Q) f) m := by
  induction p generalizing m with
  | ret a => exact Iff.rfl
  | raise e => exact Iff.rfl
  | call o k ih =>
    simp only [bind, follows_call]
    exact and_congr_right fun _ => forall₂_congr fun r _ => ih r

theorem follows_op_bind {Q : P.Mode → Except ε β → Prop} (o : S.Op)
    (f : S.Ret o → Proc S ε β) :
    ((op o).bind f).Follows P Q m ↔
      P.allow m o ∧
        (∀ a, P.answer o (.ok a) → (f a).Follows P Q (P.next m o (.ok a))) ∧
        (∀ e, P.answer o (.error e) → Q (P.next m o (.error e)) (.error e)) := by
  rw [follows_bind, op, follows_call]
  refine and_congr_right fun _ => ⟨fun h => ⟨fun a => h (.ok a), fun e => h (.error e)⟩, ?_⟩
  rintro ⟨hok, herr⟩ (e | a) hr
  · exact herr e hr
  · exact hok a hr

theorem follows_require_bind {Q : P.Mode → Except ε β → Prop} {p : Prop} [Decidable p] (e : ε)
    (f : Unit → Proc S ε β) :
    ((require p e).bind f).Follows P Q m ↔
      (p → (f ()).Follows P Q m) ∧ (¬ p → Q m (.error e)) := by
  by_cases h : p <;> simp [require, h, bind]

theorem Follows.bind {Q : P.Mode → Except ε β → Prop} {p : Proc S ε α} {f : α → Proc S ε β}
    {M : P.Mode → Except ε α → Prop} (hp : p.Follows P M m)
    (hok : ∀ m a, M m (.ok a) → (f a).Follows P Q m)
    (herr : ∀ m e, M m (.error e) → Q m (.error e)) : (p.bind f).Follows P Q m := by
  rw [follows_bind]
  apply hp.mono
  rintro m (e | a) h
  · exact herr m e h
  · exact hok m a h

theorem Follows.tryCatch {p : Proc S ε α} {f : ε → Proc S ε α}
    {M : P.Mode → Except ε α → Prop} (hp : p.Follows P M m)
    (hok : ∀ m a, M m (.ok a) → Q m (.ok a))
    (herr : ∀ m e, M m (.error e) → (f e).Follows P Q m) : (p.tryCatch f).Follows P Q m := by
  induction p generalizing m with
  | ret a => exact hok _ _ hp
  | raise e => exact herr _ _ hp
  | call o k ih => exact ⟨hp.1, fun r hr => ih r (hp.2 r hr)⟩

/-- What an iteration owes: the invariant for the rest of the loop, or the outcome itself
if it raises. -/
def loopPost {ι : Type} (I : List ι → P.Mode → Prop) {Q : P.Mode → Except ε β → Prop}
    (xs : List ι) : P.Mode → Except ε β → Prop
  | m, .ok _ => I xs m
  | m, .error e => Q m (.error e)

theorem follows_fold {ι : Type} {I : List ι → P.Mode → Prop} {Q : P.Mode → Except ε β → Prop}
    (f : β → ι → Proc S ε β) (b : β) (xs : List ι) (hI : I xs m)
    (hbody : ∀ b x xs m, I (x :: xs) m → (f b x).Follows P (loopPost I (Q := Q) xs) m)
    (hend : ∀ b m, I [] m → Q m (.ok b)) : (fold f b xs).Follows P Q m := by
  induction xs generalizing b m with
  | nil => exact hend b m hI
  | cons x xs ih => exact (hbody b x xs m hI).bind (fun m b hm => ih b hm) fun m e he => he

theorem follows_forEach {ι : Type} {I : List ι → P.Mode → Prop}
    {Q : P.Mode → Except ε Unit → Prop} (xs : List ι) (f : ι → Proc S ε Unit) (hI : I xs m)
    (hbody : ∀ x xs m, I (x :: xs) m → (f x).Follows P (loopPost I (Q := Q) xs) m)
    (hend : ∀ m, I [] m → Q m (.ok ())) : (forEach xs f).Follows P Q m := by
  induction xs generalizing m with
  | nil => exact hend m hI
  | cons x xs ih => exact (hbody x xs m hI).bind (fun m _ hm => ih hm) fun m e he => he

theorem Follows.extends {ι : Type} {allow : ι → List (Event S ε) → S.Op → Prop}
    {answer : (o : S.Op) → Except ε (S.Ret o) → Prop}
    {Q : ι × List (Event S ε) → Except ε α → Prop} {i : ι} {h : List (Event S ε)} {p : Proc S ε α}
    (hp : p.Follows (.ofHistory allow answer) Q (i, h)) :
    p.Follows (.ofHistory allow answer) (fun m r => Q m r ∧ h <+: m.2) (i, h) := by
  induction p generalizing h with
  | ret a => exact ⟨hp, List.prefix_rfl⟩
  | raise e => exact ⟨hp, List.prefix_rfl⟩
  | call o k ih =>
    refine ⟨hp.1, fun r hr => (ih r (hp.2 r hr)).mono fun m r hm => ⟨hm.1, ?_⟩⟩
    exact (List.prefix_append h _).trans hm.2

theorem Follows.and_history {ι : Type} {A B : ι → List (Event S ε) → S.Op → Prop}
    {answer : (o : S.Op) → Except ε (S.Ret o) → Prop}
    {Q Q' : ι × List (Event S ε) → Except ε α → Prop} {m : ι × List (Event S ε)} {p : Proc S ε α}
    (hp : p.Follows (.ofHistory A answer) Q m) (hp' : p.Follows (.ofHistory B answer) Q' m) :
    p.Follows (.ofHistory (fun i h o => A i h o ∧ B i h o) answer)
      (fun m r => Q m r ∧ Q' m r) m := by
  induction p generalizing m with
  | ret a => exact ⟨hp, hp'⟩
  | raise e => exact ⟨hp, hp'⟩
  | call o k ih => exact ⟨⟨hp.1, hp'.1⟩, fun r hr => ih r (hp.2 r hr) (hp'.2 r hr)⟩

/-! ## Procedures that stay within a set of operations -/

/-- Whatever the answers are, the procedure performs operations of `A` only. -/
def Only (A : S.Op → Prop) : Proc S ε α → Prop
  | .ret _ => True
  | .raise _ => True
  | .call o k => A o ∧ ∀ r, (k r).Only A

variable {A : S.Op → Prop}

@[simp] theorem only_ret (a : α) : (ret a : Proc S ε α).Only A := trivial

@[simp] theorem only_raise (e : ε) : (raise e : Proc S ε α).Only A := trivial

theorem Only.mono {A' : S.Op → Prop} {p : Proc S ε α} (hp : p.Only A) (hA : ∀ o, A o → A' o) :
    p.Only A' := by
  induction p with
  | ret a => trivial
  | raise e => trivial
  | call o k ih => exact ⟨hA o hp.1, fun r => ih r (hp.2 r)⟩

theorem only_of_forall (hA : ∀ o, A o) (p : Proc S ε α) : p.Only A := by
  induction p with
  | ret a => trivial
  | raise e => trivial
  | call o k ih => exact ⟨hA o, ih⟩

theorem Only.bind {p : Proc S ε α} {f : α → Proc S ε β} (hp : p.Only A)
    (hf : ∀ a, (f a).Only A) : (p.bind f).Only A := by
  induction p with
  | ret a => exact hf a
  | raise e => trivial
  | call o k ih => exact ⟨hp.1, fun r => ih r (hp.2 r)⟩

theorem Only.tryCatch {p : Proc S ε α} {f : ε → Proc S ε α} (hp : p.Only A)
    (hf : ∀ e, (f e).Only A) : (p.tryCatch f).Only A := by
  induction p with
  | ret a => trivial
  | raise e => exact hf e
  | call o k ih => exact ⟨hp.1, fun r => ih r (hp.2 r)⟩

@[simp] theorem only_op (o : S.Op) : (op o : Proc S ε (S.Ret o)).Only A ↔ A o := by
  refine ⟨fun h => h.1, fun h => ⟨h, ?_⟩⟩
  rintro (e | a) <;> trivial

theorem only_op_bind {o : S.Op} {f : S.Ret o → Proc S ε β} (ho : A o)
    (hf : ∀ a, (f a).Only A) : ((op o).bind f).Only A :=
  Only.bind ((only_op o).mpr ho) hf

@[simp] theorem only_require (p : Prop) [Decidable p] (e : ε) :
    (require p e : Proc S ε Unit).Only A := by
  by_cases h : p <;> simp [require, h]

theorem only_require_bind {p : Prop} [Decidable p] {e : ε} {f : Unit → Proc S ε β}
    (hf : p → (f ()).Only A) : ((require p e).bind f).Only A := by
  by_cases h : p
  · simpa [require, h, bind] using hf h
  · simp [require, h, bind]

@[simp] theorem only_ofExcept (x : Except ε α) : (ofExcept x : Proc S ε α).Only A := by
  cases x <;> trivial

theorem only_and {b : Bool} {p : Proc S ε Bool} (hp : p.Only A) : (and b p).Only A := by
  cases b
  · trivial
  · exact hp

theorem only_when {p : Prop} [Decidable p] {body : Proc S ε Unit} (hp : body.Only A) :
    (when p body).Only A := by
  by_cases h : p <;> simp [when, h, hp]

theorem only_forEach {ι : Type} {f : ι → Proc S ε Unit} (hf : ∀ x, (f x).Only A) (xs : List ι) :
    (forEach xs f).Only A := by
  induction xs with
  | nil => trivial
  | cons x xs ih => exact (hf x).bind fun _ => ih

theorem only_fold {ι : Type} {f : β → ι → Proc S ε β} (hf : ∀ b x, (f b x).Only A) (b : β)
    (xs : List ι) : (fold f b xs).Only A := by
  induction xs generalizing b with
  | nil => trivial
  | cons x xs ih => exact (hf b x).bind fun b => ih b

theorem Only.follows {p : Proc S ε α} {I : P.Mode → Prop} (hp : p.Only A) (hI : I m)
    (hA : ∀ m o, I m → A o → P.allow m o ∧ ∀ r, P.answer o r → I (P.next m o r)) :
    p.Follows P (fun m _ => I m) m := by
  induction p generalizing m with
  | ret a => exact hI
  | raise e => exact hI
  | call o k ih =>
    obtain ⟨hallow, hnext⟩ := hA m o hI hp.1
    exact ⟨hallow, fun r hr => ih r (hp.2 r) (hnext r hr)⟩

theorem Only.follows_history {ι : Type} {B : ι → List (Event S ε) → S.Op → Prop}
    {answer : (o : S.Op) → Except ε (S.Ret o) → Prop} {i : ι} {h : List (Event S ε)}
    {p : Proc S ε α} (hp : p.Only A) (hA : ∀ h', h <+: h' → ∀ o, A o → B i h' o) :
    p.Follows (.ofHistory B answer) (fun m _ => m.1 = i ∧ h <+: m.2) (i, h) := by
  refine Only.follows (P := .ofHistory B answer) (I := fun m => m.1 = i ∧ h <+: m.2) hp
    ⟨rfl, List.prefix_rfl⟩ ?_
  rintro ⟨j, h'⟩ o ⟨rfl, hh⟩ ho
  exact ⟨hA h' hh o ho, fun r _ => ⟨rfl, hh.trans (List.prefix_append ..)⟩⟩

end Proc

end Library
