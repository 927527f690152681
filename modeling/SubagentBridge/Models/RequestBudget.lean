import Mathlib.Algebra.Order.BigOperators.Group.List
import Mathlib.Algebra.Order.Ring.Int
import Mathlib.Tactic.Ring
import SubagentBridge.Models.NineRouter

/-! What callers that share a budget send under it. -/

namespace SubagentBridge.Models

open Library

variable {F : Type}

abbrev Past (F : Type) := List (Event (sig F) RouterError)

def isCharge (e : Event (sig F) RouterError) : Bool :=
  match e with
  | ⟨.charge _, .ok _⟩ => true
  | _ => false

def isAttempt (e : Event (sig F) RouterError) : Bool :=
  match e.op with
  | .send _ => true
  | _ => false

def isPost (e : Event (sig F) RouterError) : Bool :=
  match e with
  | ⟨.send _, .ok _⟩ => true
  | _ => false

def unavailable (r : Except RouterError (Json F)) : Bool :=
  match r with
  | .error (.unavailable _) => true
  | _ => false

def isLost (e : Event (sig F) RouterError) : Bool :=
  match e with
  | ⟨.receive, r⟩ => unavailable r
  | _ => false

/-- What a call has been charged for, has attempted, has sent, and has lost the reply to. -/
def charges (h : Past F) : Int := h.countP isCharge

def attempted (h : Past F) : Int := h.countP isAttempt

def posted (h : Past F) : Int := h.countP isPost

def lost (h : Past F) : Int := h.countP isLost

/-- A chat is charged first; it sends again only after it has lost the reply to what it sent. -/
def MaySend (q : ChatCall F) (h : Past F) : Op F → Prop
  | .charge maxTokens => maxTokens = q.maxTokens ∧ h = []
  | .send payload => payload.maxTokens = q.maxTokens ∧ 0 < charges h ∧
      attempted h ≤ q.maxRetries ∧ posted h = lost h
  | .receive => True

variable (F) in
abbrev frugal : Protocol (sig F) RouterError := .ofHistory MaySend fun _ _ => True

section Counts

variable (e : Event (sig F) RouterError) (h h' : Past F)

@[simp] theorem charges_nil : charges ([] : Past F) = 0 := rfl

@[simp] theorem charges_append : charges (h ++ h') = charges h + charges h' := by
  simp [charges, List.countP_append]

@[simp] theorem charges_cons : charges (e :: h) = (if isCharge e then 1 else 0) + charges h := by
  by_cases he : isCharge e <;> simp [charges, he, Int.add_comm]

@[simp] theorem attempted_nil : attempted ([] : Past F) = 0 := rfl

@[simp] theorem attempted_append : attempted (h ++ h') = attempted h + attempted h' := by
  simp [attempted, List.countP_append]

@[simp] theorem attempted_cons :
    attempted (e :: h) = (if isAttempt e then 1 else 0) + attempted h := by
  by_cases he : isAttempt e <;> simp [attempted, he, Int.add_comm]

@[simp] theorem posted_nil : posted ([] : Past F) = 0 := rfl

@[simp] theorem posted_append : posted (h ++ h') = posted h + posted h' := by
  simp [posted, List.countP_append]

@[simp] theorem posted_cons : posted (e :: h) = (if isPost e then 1 else 0) + posted h := by
  by_cases he : isPost e <;> simp [posted, he, Int.add_comm]

@[simp] theorem lost_nil : lost ([] : Past F) = 0 := rfl

@[simp] theorem lost_append : lost (h ++ h') = lost h + lost h' := by
  simp [lost, List.countP_append]

@[simp] theorem lost_cons : lost (e :: h) = (if isLost e then 1 else 0) + lost h := by
  by_cases he : isLost e <;> simp [lost, he, Int.add_comm]

end Counts

/-! ## The discipline of a chat -/

section Discipline

variable {q : ChatCall F} {h : Past F}

structure Retrying (q : ChatCall F) (left : Nat) (h : Past F) : Prop where
  charged : 0 < charges h
  attempts : attempted h + left ≤ q.maxRetries
  replies : posted h = lost h

def Caught (q : ChatCall F) (h : Past F) (m : ChatCall F × Past F) : Prop :=
  m.1 = q ∧ 0 < charges m.2 ∧ attempted m.2 = attempted h + 1 ∧ posted m.2 = lost m.2

theorem request_frugal {payload : Payload F} {left : Nat} (hp : payload.maxTokens = q.maxTokens)
    (hr : Retrying q left h) : (request payload).Follows (frugal F)
      (fun m r => ∀ text, r = .error (.unavailable text) → Caught q h m) (q, h) := by
  have hmay : MaySend q h (.send payload) :=
    ⟨hp, hr.charged, by have := hr.attempts; omega, hr.replies⟩
  refine (Proc.follows_op_bind (P := frugal F) (m := (q, h)) (Op.send payload) _).mpr
    ⟨hmay, fun _ _ => ?_, fun e _ text he => ?_⟩
  · refine ⟨trivial, fun r _ => ?_⟩
    cases r with
    | ok obj => intro text he; cases he
    | error e =>
      intro text he
      cases he
      refine ⟨rfl, ?_, ?_, ?_⟩
      · simpa [isCharge] using hr.charged
      · simp [isAttempt]
      · simp [isPost, isLost, unavailable, hr.replies]
  · cases he
    refine ⟨rfl, ?_, ?_, ?_⟩
    · simpa [isCharge] using hr.charged
    · simp [isAttempt]
    · simp [isPost, isLost, hr.replies]

theorem attempt_frugal {payload : Payload F} {left : Nat} (hp : payload.maxTokens = q.maxTokens)
    (hr : Retrying q left h) : (attempt payload).Follows (frugal F)
      (fun m r => ∀ text, r = .ok (.inr text) → Caught q h m) (q, h) := by
  apply Proc.Follows.tryCatch (M := fun m r => (∀ text, r ≠ .ok (.inr text)) ∧
    ∀ text, r = .error (.unavailable text) → Caught q h m)
  · apply (request_frugal hp hr).bind
    · intro m obj _
      constructor <;> intro text he <;> cases he
    · intro m e he
      constructor
      · intro text ht
        cases ht
      · intro text ht
        cases ht
        exact he text rfl
  · intro m r hm text he
    exact absurd he (hm.1 text)
  · intro m e hm
    cases e with
    | unavailable text =>
      intro text' he
      exact hm.2 text rfl
    | _ => intro text he; cases he

theorem attempts_frugal (payload : Payload F) (hp : payload.maxTokens = q.maxTokens) (left : Nat)
    (lastExc : Option String) (hr : Retrying q left h) :
    (attempts payload left lastExc).Follows (frugal F) (fun _ _ => True) (q, h) := by
  induction left generalizing q h lastExc with
  | zero =>
    apply (attempt_frugal hp hr).bind
    · rintro m (obj | text) _ <;> trivial
    · exact fun _ _ _ => trivial
  | succ left ih =>
    apply (attempt_frugal hp hr).bind
    · rintro ⟨q', h'⟩ (obj | text) hm
      · trivial
      · obtain ⟨hq, hcharged, hattempted, hreplies⟩ := hm text rfl
        dsimp only at hq hcharged hattempted hreplies
        subst hq
        have hleft := hr.attempts
        push_cast at hleft
        exact ih hp _ ⟨hcharged, by omega, hreplies⟩
    · exact fun _ _ _ => trivial

variable [FloatInt F]

theorem chat_frugal (q : ChatCall F) :
    (chat q).Follows (frugal F) (fun _ _ => True) (q, []) := by
  simp only [chat, Proc.bind_eq]
  refine (Proc.follows_require_bind ..).mpr ⟨fun _ => ?_, fun _ => trivial⟩
  refine (Proc.follows_require_bind ..).mpr ⟨fun hretries => ?_, fun _ => trivial⟩
  cases q.models with
  | none => trivial
  | some models =>
    refine (Proc.follows_require_bind ..).mpr ⟨fun _ => ?_, fun _ => trivial⟩
    cases models.select [q.modelId] false false false with
    | error e => trivial
    | ok selected =>
      refine (Proc.follows_require_bind ..).mpr ⟨fun _ => ?_, fun _ => trivial⟩
      cases checkMessages q.messages with
      | error e => trivial
      | ok _ =>
        refine (Proc.follows_op_bind (P := frugal F) (m := (q, [])) (Op.charge q.maxTokens) _).mpr
          ⟨⟨rfl, rfl⟩, fun _ _ => ?_, fun _ _ => trivial⟩
        have hr : Retrying q q.maxRetries.toNat [⟨.charge q.maxTokens, .ok ()⟩] := by
          constructor <;> simp [isCharge, isAttempt, isPost, isLost]
          omega
        apply (attempts_frugal ⟨q.modelId, q.messages, q.maxTokens⟩ rfl _ none hr).bind
        · rintro m ⟨obj, lastExc⟩ _
          dsimp only
          split
          · trivial
          · cases parseReply q.modelId obj <;> trivial
        · exact fun _ _ _ => trivial

end Discipline

/-! ## Runs -/

section Runs

variable {ms : List (ChatCall F × Past F)} {i : Nat} {q : ChatCall F} {h : Past F}

theorem sum_set (f : ChatCall F × Past F → Int) (hi : ms[i]? = some (q, h)) (h' : Past F) :
    ((ms.set i (q, h')).map f).sum = (ms.map f).sum + (f (q, h') - f (q, h)) := by
  induction ms generalizing i with
  | nil => cases hi
  | cons m ms ih =>
    cases i with
    | zero =>
      obtain rfl := Option.some.inj hi
      simp only [List.set_cons_zero, List.map_cons, List.sum_cons]
      omega
    | succ i =>
      simp only [List.set_cons_succ, List.map_cons, List.sum_cons, ih (by simpa using hi)]
      omega

/-- Each call has sent no more than it was charged for, and both are what the shared state shows. -/
structure Balanced (initial : CallBudget) (s : Shared)
    (ms : List (ChatCall F × Past F)) : Prop where
  requests : s.budget.requestsLeft + (ms.map fun m => charges m.2).sum = initial.requestsLeft
  tokens : s.budget.tokensLeft + (ms.map fun m => charges m.2 * m.1.maxTokens).sum =
    initial.tokensLeft
  posts : (s.posts.length : Int) = (ms.map fun m => posted m.2).sum
  postTokens : s.posts.sum = (ms.map fun m => posted m.2 * m.1.maxTokens).sum
  left : 0 ≤ s.budget.requestsLeft ∧ 0 ≤ s.budget.tokensLeft
  covered : ∀ m ∈ ms, posted m.2 ≤ charges m.2 ∧ (0 < charges m.2 → 0 < m.1.maxTokens)
  spared : ∀ m ∈ ms, lost m.2 = 0 ∨ m.1.maxRetries < attempted m.2

def WithinBudget (initial : CallBudget) (s : Shared) : Prop :=
  s.posts.length ≤ initial.requestsLeft ∧ s.posts.sum ≤ initial.tokensLeft

variable {initial : CallBudget} {s : Shared}

theorem Balanced.within (hb : Balanced initial s ms) : WithinBudget initial s := by
  have hposts : (ms.map fun m => posted m.2).sum ≤ (ms.map fun m => charges m.2).sum :=
    List.sum_le_sum fun m hm => (hb.covered m hm).1
  have htokens : (ms.map fun m => posted m.2 * m.1.maxTokens).sum ≤
      (ms.map fun m => charges m.2 * m.1.maxTokens).sum := by
    refine List.sum_le_sum fun m hm => ?_
    obtain ⟨hle, hpos⟩ := hb.covered m hm
    have hnonneg : 0 ≤ posted m.2 := Int.natCast_nonneg _
    by_cases hc : 0 < charges m.2
    · exact mul_le_mul_of_nonneg_right hle (hpos hc).le
    · have hzero : charges m.2 = 0 ∧ posted m.2 = 0 := by omega
      rw [hzero.1, hzero.2]
  obtain ⟨hr, ht⟩ := hb.left
  have hrequests := hb.requests
  have hleft := hb.tokens
  exact ⟨by rw [hb.posts]; omega, by rw [hb.postTokens]; omega⟩

theorem charge_ok {b b' : CallBudget} {maxTokens : Int} (h : b.charge maxTokens = .ok b') :
    0 < maxTokens ∧ 1 ≤ b.requestsLeft ∧ maxTokens ≤ b.tokensLeft ∧
      b' = ⟨b.requestsLeft - 1, b.tokensLeft - maxTokens⟩ := by
  simp only [CallBudget.charge, bind_ok, require_ok] at h
  obtain ⟨_, hpos, _, hroom, hb⟩ := h
  cases hb
  exact ⟨hpos, by omega, by omega, rfl⟩

theorem Balanced.unseen (hb : Balanced initial s ms) (hi : ms[i]? = some (q, h))
    {e : Event (sig F) RouterError} (hc : isCharge e = false) (hp : isPost e = false)
    (hl : isLost e = true → q.maxRetries < attempted (h ++ [e])) :
    Balanced initial s (ms.set i (q, h ++ [e])) := by
  have hold := List.mem_of_getElem? hi
  constructor
  · rw [sum_set _ hi]
    simpa [hc] using hb.requests
  · rw [sum_set _ hi]
    simpa [hc] using hb.tokens
  · rw [sum_set _ hi]
    simpa [hp] using hb.posts
  · rw [sum_set _ hi]
    simpa [hp] using hb.postTokens
  · exact hb.left
  · intro m hm
    rcases List.mem_or_eq_of_mem_set hm with hm | rfl
    · exact hb.covered m hm
    · simpa [hc, hp] using hb.covered _ hold
  · intro m hm
    rcases List.mem_or_eq_of_mem_set hm with hm | rfl
    · exact hb.spared m hm
    · cases hle : isLost e with
      | true => exact .inr (hl hle)
      | false =>
        refine (hb.spared _ hold).imp (fun hlost => ?_) fun hmore => ?_
        · simpa [hle] using hlost
        · simp only [attempted_append, attempted_cons, attempted_nil] at hmore ⊢
          split <;> omega

theorem Balanced.charge (hb : Balanced initial s ms) (hi : ms[i]? = some (q, []))
    {b : CallBudget} (hc : s.budget.charge q.maxTokens = .ok b) :
    Balanced initial { s with budget := b } (ms.set i (q, [⟨.charge q.maxTokens, .ok ()⟩])) := by
  obtain ⟨hpos, hroom, htokens, rfl⟩ := charge_ok hc
  have hrequests := hb.requests
  have hleft := hb.tokens
  constructor
  · rw [sum_set _ hi]
    simp only [charges_cons, charges_nil, isCharge, if_true]
    omega
  · rw [sum_set _ hi]
    simp only [charges_cons, charges_nil, isCharge, if_true]
    omega
  · rw [sum_set _ hi]
    simpa [isPost] using hb.posts
  · rw [sum_set _ hi]
    simpa [isPost] using hb.postTokens
  · exact ⟨by simp only; omega, by simp only; omega⟩
  · intro m hm
    rcases List.mem_or_eq_of_mem_set hm with hm | rfl
    · exact hb.covered m hm
    · simp [isCharge, isPost, hpos]
  · intro m hm
    rcases List.mem_or_eq_of_mem_set hm with hm | rfl
    · exact hb.spared m hm
    · exact .inl rfl

theorem Balanced.send (hb : Balanced initial s ms) (hi : ms[i]? = some (q, h))
    {payload : Payload F} (hmay : MaySend q h (.send payload)) :
    Balanced initial { s with posts := s.posts ++ [payload.maxTokens] }
      (ms.set i (q, h ++ [⟨.send payload, .ok ()⟩])) := by
  obtain ⟨hp, hcharged, hattempts, hreplies⟩ := hmay
  have hold := List.mem_of_getElem? hi
  have hlost : lost h = 0 := (hb.spared _ hold).resolve_right (by simp only; omega)
  constructor
  · rw [sum_set _ hi]
    simpa [isCharge] using hb.requests
  · rw [sum_set _ hi]
    simpa [isCharge] using hb.tokens
  · rw [sum_set _ hi, List.length_append]
    simp [isPost, hb.posts]
  · rw [sum_set _ hi, List.sum_append, hb.postTokens, hp]
    simp only [posted_append, posted_cons, posted_nil, isPost, if_true, List.sum_cons, List.sum_nil]
    ring
  · exact hb.left
  · intro m hm
    rcases List.mem_or_eq_of_mem_set hm with hm | rfl
    · exact hb.covered m hm
    · have hpos := (hb.covered _ hold).2
      simp only [posted_append, posted_cons, posted_nil, isPost, if_true, charges_append,
        charges_cons, charges_nil, isCharge, hreplies, hlost, Bool.false_eq_true, if_false,
        Int.add_zero] at hpos ⊢
      exact ⟨by omega, hpos⟩
  · intro m hm
    rcases List.mem_or_eq_of_mem_set hm with hm | rfl
    · exact hb.spared m hm
    · exact .inl (by simp [isLost, hlost])

theorem balanced_initial (hr : 0 ≤ initial.requestsLeft) (ht : 0 ≤ initial.tokensLeft) :
    Balanced (F := F) initial ⟨initial, []⟩ [] := by
  constructor <;> simp [hr, ht]

theorem Balanced.start (hb : Balanced initial s ms) (q : ChatCall F) :
    Balanced initial s (ms ++ [(q, [])]) := by
  constructor
  · simpa using hb.requests
  · simpa using hb.tokens
  · simpa using hb.posts
  · simpa using hb.postTokens
  · exact hb.left
  · intro m hm
    rcases List.mem_append.mp hm with hm | hm
    · exact hb.covered m hm
    · rw [List.mem_singleton.mp hm]
      simp
  · intro m hm
    rcases List.mem_append.mp hm with hm | hm
    · exact hb.spared m hm
    · rw [List.mem_singleton.mp hm]
      exact .inl rfl

variable [FloatInt F]

def repeats (c : (callers F).Config) : (callers F).Label → Bool
  | .start _ => false
  | .act i w => match c.calls[i]? with
    | some ⟨q, .call .receive _, h⟩ => unavailable w.reply && attempted h ≤ q.maxRetries
    | _ => false

abbrev Unrepeated (c : (callers F).Config) (l : (callers F).Label) : Prop := repeats c l = false

theorem balanced_run (hr : 0 ≤ initial.requestsLeft) (ht : 0 ≤ initial.tokensLeft)
    {ls : List (callers F).Label} {c : (callers F).Config}
    (hrun : Path Machine.step Unrepeated ((callers F).initial ⟨initial, []⟩) ls c) :
    Balanced initial c.state (c.modes (frugal F) fun q => (q, [])) := by
  refine Machine.modes_invariant (M := callers F) (P := frugal F)
    (Q := fun _ _ _ => True) (J := Balanced initial) (fun q => chat_frugal q)
    (fun _ _ _ _ _ _ => trivial) (balanced_initial hr ht) (fun _ _ q hb => hb.start q) ?_ hrun
  intro c i w c' q o k h hG hact hb hmay
  have hi : (c.modes (frugal F) fun q => (q, []))[i]? = some ((frugal F).after (q, []) h) :=
    hact.mode_at
  rw [Protocol.after_ofHistory, List.nil_append] at hi hmay ⊢
  cases o with
  | charge maxTokens =>
    obtain ⟨rfl, rfl⟩ := hmay
    cases hc : c.state.budget.charge q.maxTokens with
    | ok b =>
      simp only [exec, hc]
      exact hb.charge hi hc
    | error e =>
      simp only [exec, hc]
      exact hb.unseen hi rfl rfl fun h => by cases h
  | send payload =>
    cases hs : w.sent with
    | ok _ =>
      simp only [exec, hs]
      exact hb.send hi hmay
    | error e =>
      simp only [exec, hs]
      exact hb.unseen hi rfl rfl fun h => by cases h
  | receive =>
    refine hb.unseen hi rfl rfl fun hl => ?_
    have hl : unavailable w.reply = true := hl
    simp only [Unrepeated, repeats, hact.call, hl, Bool.true_and, decide_eq_false_iff_not] at hG
    simpa [isAttempt] using hG

theorem posts_within_budget (requests tokens : Int) {budget : CallBudget}
    (hb : CallBudget.create requests tokens = .ok budget)
    {ls : List (callers F).Label} {c : (callers F).Config}
    (hrun : Path Machine.step Unrepeated ((callers F).initial ⟨budget, []⟩) ls c) :
    WithinBudget budget c.state := by
  simp only [CallBudget.create, bind_ok, require_ok] at hb
  obtain ⟨_, ⟨hr, ht⟩, hb⟩ := hb
  cases hb
  exact (balanced_run hr ht hrun).within

end Runs

/-! ## A lost reply -/

def sampleModels : Dict String ModelCapabilities :=
  [("m1", ⟨"m1", some true, some true, some true, false, false⟩)]

theorem sampleModels_keyed : ∀ p ∈ sampleModels, p.2.modelId = p.1 := by simp [sampleModels]

def sampleCall (maxRetries : Int) : ChatCall Int where
  models := some ⟨sampleModels, sampleModels_keyed⟩
  modelId := "m1"
  messages := [[("role", .str "user"), ("content", .str "hi")]]
  maxTokens := 100
  providerTermsApproved := true
  maxRetries

def lossy : World Int := ⟨.ok (), .error (.unavailable "local 9Router request failed")⟩

def unreachable : World Int :=
  ⟨.error (.unavailable "local 9Router request failed"), .ok .null⟩

def repeatedPost : List (callers Int).Label :=
  [.start (sampleCall 1), .act 0 lossy, .act 0 lossy, .act 0 lossy, .act 0 lossy]

/-- Two calls: one is retried before anything was sent, the other loses its only reply. -/
def sharedBudget : List (callers Int).Label :=
  [.start (sampleCall 1), .start (sampleCall 0), .act 0 lossy, .act 1 lossy, .act 0 unreachable,
    .act 1 lossy, .act 1 lossy, .act 0 lossy, .act 0 ⟨.ok (), .ok .null⟩]

theorem posts_within_shared : ∃ c, Path Machine.step Unrepeated
      ((callers Int).initial ⟨⟨2, 200⟩, []⟩) sharedBudget c ∧
    c.state.posts = [100, 100] ∧ WithinBudget ⟨2, 200⟩ c.state := by
  have hrun : (Library.exec (restrict Machine.step Unrepeated)
    ((callers Int).initial ⟨⟨2, 200⟩, []⟩)
      sharedBudget).any (fun c => c.state.posts = [100, 100]) = true := by decide +kernel
  obtain ⟨c, hc, hposts⟩ := run_of_any hrun
  have hpath := path_of_restrict hc
  exact ⟨c, hpath, of_decide_eq_true hposts,
    posts_within_budget 2 200 rfl hpath⟩

/-- Two requests were sent under a budget of one. -/
theorem posts_beyond_budget : CallBudget.create 1 100 = .ok ⟨1, 100⟩ ∧
    ∃ c, Run Machine.step ((callers Int).initial ⟨⟨1, 100⟩, []⟩) repeatedPost c ∧
      c.state.posts = [100, 100] ∧ ¬ WithinBudget ⟨1, 100⟩ c.state := by
  have hrun : (Library.exec Machine.step ((callers Int).initial ⟨⟨1, 100⟩, []⟩) repeatedPost).any
      (fun c => c.state.posts = [100, 100]) = true := by decide +kernel
  obtain ⟨c, hc, hposts⟩ := run_of_any hrun
  have hposts := of_decide_eq_true hposts
  refine ⟨rfl, c, hc, hposts, fun hwithin => ?_⟩
  rw [WithinBudget, hposts] at hwithin
  exact absurd hwithin.1 (by decide)

end SubagentBridge.Models
