import SubagentBridge.Execution.TimedStreamReader
import Mathlib.Algebra.Ring.Int.Defs
import Mathlib.Data.Int.Order.Basic
import Mathlib.Data.List.ReduceOption

/-! What calls on the line reader take, and what they leave. -/

namespace SubagentBridge.Execution.TimedStreamReader

open Library

variable {F α : Type}

structure Sound (q : Request F α) (stage : Stage F α) (l : Lines α) : Prop where
  waits : (∃ limit, stage = .getting limit) ∨ (∃ unmatched, stage = .fetching unmatched) →
    l.pending = []
  plain : ∀ timeout, q = .readline timeout → stage.unmatched = []
  fails : ∀ predicate timeout, q = .readlineMatching predicate timeout →
    ∀ x ∈ stage.unmatched, predicate x = false

def Stage.sees (stage : Stage F α) (l : Lines α) : List α := stage.unmatched ++ l.all

/-- The lock is held by the call that is inside; the end marker is the last item of the queue. -/
structure Wf (s : Reader F α) : Prop where
  inside : ∀ (i : Nat) (c : Call F α), s.calls[i]? = some c →
    (c.stage.inside = true ↔ s.holder = some i)
  held : ∀ i, s.holder = some i → i < s.calls.length
  sound : ∀ (i : Nat) (c : Call F α), s.calls[i]? = some c → Sound c.request c.stage s.lines
  marker : ∀ q₁ q₂, s.lines.queue = q₁ ++ none :: q₂ → q₂ = [] ∧ s.ended = true
  ended : s.ended = true → s.lines.stream = [] ∧ s.closed = true

section Local

variable {q : Request F α} {stage stage' : Stage F α} {l l' : Lines α}

theorem outside_of_done {stage : Stage F α} (h : stage.done = true) : stage.inside = false := by
  cases stage with
  | returned | raised => rfl
  | entering | reading | getting | scanning | fetching | leaving | failing => cases h

theorem judge_inside (predicate : α → Bool) (unmatched : List α) (line : α) :
    (judge predicate unmatched line : Stage F α).inside = true := by
  rw [judge]
  split <;> rfl

theorem Sound.settle (hs : Sound q stage l) (h : stage'.unmatched = stage.unmatched)
    (hwaits : (∃ limit, stage' = .getting limit) ∨ (∃ unmatched, stage' = .fetching unmatched) →
      l'.pending = []) : Sound q stage' l' :=
  ⟨hwaits, fun timeout hq => h.trans (hs.plain timeout hq), fun p t hq => h ▸ hs.fails p t hq⟩

theorem Sound.leave (hs : Sound q stage l) (result : Option α) :
    Sound q (.leaving stage.unmatched result) l' :=
  hs.settle rfl fun h => by rcases h with ⟨_, h⟩ | ⟨_, h⟩ <;> cases h

theorem Sound.mono (hs : Sound q stage l) (h : l'.pending = l.pending) : Sound q stage l' :=
  ⟨fun hw => h.trans (hs.waits hw), hs.plain, hs.fails⟩

theorem sound_outside (h : stage.inside = false) : Sound q stage l := by
  cases stage with
  | entering | returned | raised =>
    refine ⟨?_, fun _ _ => rfl, fun _ _ _ x hx => by cases hx⟩
    rintro (⟨_, h⟩ | ⟨_, h⟩) <;> cases h
  | reading | getting | scanning | fetching | leaving | failing => cases h

variable {s s' : Reader F α} {i : Nat} {c : Call F α}

theorem remaining_inside (hholder : s.holder = some i) (hc : s.calls[i]? = some c) :
    remaining s = c.stage.sees s.lines := by
  simp [remaining, hholder, hc, Stage.sees]

theorem available_inside (hholder : s.holder = some i) (hc : s.calls[i]? = some c) :
    available s = c.stage.unmatched ++ s.lines.ready := by
  simp [available, hholder, hc]

theorem remaining_free (hholder : s.holder = none) : remaining s = s.lines.all := by
  simp [remaining, hholder]

theorem wf_initial (clock : F) : Wf (initial clock : Reader F α) := by
  constructor
  · rintro i c hc
    cases hc
  · rintro i hi
    cases hi
  · rintro i c hc
    cases hc
  · rintro q₁ q₂ hq
    simp [initial] at hq
  · rintro hended
    cases hended

theorem Wf.no_marker (hw : Wf s) (hopen : s.ended = false) : none ∉ s.lines.queue := by
  intro h
  obtain ⟨q₁, q₂, hq⟩ := List.append_of_mem h
  cases hopen.symm.trans (hw.marker q₁ q₂ hq).2

theorem wf_feed (hw : Wf s) (h : feed s = some s') : Wf s' := by
  unfold feed at h
  split at h
  next line stream hstream =>
    cases h
    have hopen : s.ended = false := by
      rw [Bool.eq_false_iff]
      intro hended
      rw [(hw.ended hended).1] at hstream
      cases hstream
    refine ⟨hw.inside, hw.held, fun j d hd => (hw.sound j d hd).mono rfl, ?_, ?_⟩
    · intro q₁ q₂ hq
      have hmem : none ∈ s.lines.queue ++ [some line] := by
        rw [show s.lines.queue ++ [some line] = q₁ ++ none :: q₂ from hq]
        simp
      exact (hw.no_marker hopen (by simpa using hmem)).elim
    · intro hended
      cases hopen.symm.trans hended
  next hstream =>
    split at h
    next hend =>
      cases h
      refine ⟨hw.inside, hw.held, fun j d hd => (hw.sound j d hd).mono rfl, ?_, ?_⟩
      · intro q₁ q₂ hq
        refine ⟨?_, rfl⟩
        rcases List.eq_nil_or_concat q₂ with rfl | ⟨q, item, rfl⟩
        · rfl
        · rw [List.concat_eq_append, ← List.cons_append, ← List.append_assoc] at hq
          have hqueue := (List.append_singleton_inj.mp hq).1
          exact (hw.no_marker hend.2 (by rw [hqueue]; simp)).elim
      · exact fun _ => ⟨hstream, hend.1⟩
    next => cases h

theorem written_snoc (ls : List (Label F α)) (label : Label F α) :
    written (ls ++ [label]) = written ls ++ writes label := by
  simp [written]

theorem returned_set {calls : List (Call F α)} (hc : calls[i]? = some c) (stage : Stage F α) :
    ∃ before after, calls.filterMap (·.stage.result.join) =
        before ++ (c.stage.result.join.toList ++ after) ∧
      (calls.set i { c with stage }).filterMap (·.stage.result.join) =
        before ++ (stage.result.join.toList ++ after) := by
  obtain ⟨hlt, rfl⟩ := List.getElem?_eq_some_iff.mp hc
  have hset : ∀ d : Call F α, (calls.set i d).filterMap (·.stage.result.join) =
      (calls.take i).filterMap (·.stage.result.join) ++
        (d.stage.result.join.toList ++ (calls.drop (i + 1)).filterMap (·.stage.result.join)) := by
    intro d
    rw [List.set_eq_take_append_cons_drop, if_pos hlt, List.filterMap_append]
    cases h : d.stage.result.join <;> simp [h]
  have hold := hset calls[i]
  rw [List.set_getElem_self] at hold
  exact ⟨_, _, hold, hset _⟩

theorem ordinary_of_idle (h : Idle s) : Ordinary s := fun c hc _ _ _ => h c hc

theorem free_of_idle (hw : Wf s) (hidle : Idle s) : s.holder = none := by
  cases hholder : s.holder with
  | none => rfl
  | some i =>
    obtain ⟨c, hc⟩ : ∃ c, s.calls[i]? = some c :=
      ⟨_, List.getElem?_eq_getElem (hw.held i hholder)⟩
    have hin := (hw.inside i c hc).mpr hholder
    cases hin.symm.trans (outside_of_done (hidle c (List.mem_of_getElem? hc)))

end Local

variable [LinearOrder F] [Add F] [Zero F]

inductive Moves (now started : F) (q : Request F α) (stage stage' : Stage F α) (l l' : Lines α) :
    Prop
  | goes (hresult : stage'.result = none) (hsees : stage'.sees l' = stage.sees l)
  | gives (hresult : stage'.result = some none) (hsees : stage'.sees l' = stage.sees l)
      (hwhy : ∀ predicate timeout, q = .readlineMatching predicate timeout →
        deadline started timeout ≤ now ∧ l.pending = [] ∧
            (stage = .scanning stage.unmatched ∨ l.queue = []) ∨
          stage = .fetching stage.unmatched ∧ ∃ queue, l.queue = none :: queue)
  | takes (x : α) (rest : List α) (hresult : stage'.result = some (some x))
      (hbefore : stage.sees l = stage.unmatched ++ x :: rest)
      (hafter : stage'.sees l' = stage.unmatched ++ rest)
      (hmatch : ∀ predicate timeout, q = .readlineMatching predicate timeout → predicate x = true)

section Local

variable {now started timeout : F} {q : Request F α} {stage stage' : Stage F α} {l l' : Lines α}
variable {predicate : α → Bool} {unmatched rest : List α} {line : α}

theorem advance_inside (h : advance now started q stage l = some (stage', l')) :
    stage.inside = true ∧ stage.result = none ∧ stage'.inside = true := by
  unfold advance at h
  split at h
  · split at h
    · cases h; exact ⟨rfl, rfl, rfl⟩
    · split at h <;> cases h <;> exact ⟨rfl, rfl, rfl⟩
  · split at h
    · cases h; exact ⟨rfl, rfl, rfl⟩
    · split at h
      · cases h; exact ⟨rfl, rfl, rfl⟩
      · cases h
  · split at h
    · cases h; exact ⟨rfl, rfl, judge_inside ..⟩
    · split at h <;> cases h <;> exact ⟨rfl, rfl, rfl⟩
  · split at h
    · cases h; exact ⟨rfl, rfl, judge_inside ..⟩
    · cases h; exact ⟨rfl, rfl, rfl⟩
    · split at h
      · cases h; exact ⟨rfl, rfl, rfl⟩
      · cases h
  · cases h

theorem advance_lines (h : advance now started q stage l = some (stage', l')) :
    l'.stream = l.stream ∧ ∃ taken, l.queue = taken ++ l'.queue := by
  unfold advance at h
  split at h
  · split at h
    · cases h; exact ⟨rfl, [], rfl⟩
    · split at h <;> cases h <;> exact ⟨rfl, [], rfl⟩
  · split at h
    next item queue hq => cases h; exact ⟨rfl, [item], hq⟩
    next =>
      split at h
      · cases h; exact ⟨rfl, [], rfl⟩
      · cases h
  · split at h
    · cases h; exact ⟨rfl, [], rfl⟩
    · split at h <;> cases h <;> exact ⟨rfl, [], rfl⟩
  · split at h
    next line queue hq => cases h; exact ⟨rfl, [some line], hq⟩
    next queue hq => cases h; exact ⟨rfl, [none], hq⟩
    next =>
      split at h
      · cases h; exact ⟨rfl, [], rfl⟩
      · cases h
  · cases h

theorem moves_judge (hs : Sound (.readlineMatching predicate timeout) stage l)
    (hbefore : stage.sees l = stage.unmatched ++ line :: rest) (hafter : l'.all = rest) :
    Moves now started (.readlineMatching predicate timeout) stage
        (judge predicate stage.unmatched line) l l' ∧
      Sound (.readlineMatching predicate timeout)
        (judge predicate stage.unmatched line : Stage F α) l' := by
  rw [judge]
  split
  next hmatch =>
    refine ⟨.takes line rest rfl hbefore (by rw [Stage.sees, hafter]; rfl) ?_, ?_, ?_, hs.fails⟩
    · rintro _ _ ⟨⟩
      exact hmatch
    · rintro (⟨_, h⟩ | ⟨_, h⟩) <;> cases h
    · rintro _ ⟨⟩
  next hmatch =>
    refine ⟨.goes rfl ?_, ?_, ?_, ?_⟩
    · rw [hbefore, Stage.sees, hafter]
      simp [Stage.unmatched]
    · rintro (⟨_, h⟩ | ⟨_, h⟩) <;> cases h
    · rintro _ ⟨⟩
    · rintro _ _ ⟨⟩ x hx
      rcases List.mem_append.mp hx with hx | hx
      · exact hs.fails _ _ rfl x hx
      · rw [List.mem_singleton.mp hx]
        exact Bool.eq_false_iff.mpr hmatch

theorem advance_moves (hs : Sound q stage l)
    (h : advance now started q stage l = some (stage', l')) :
    Moves now started q stage stage' l l' ∧ Sound q stage' l' := by
  unfold advance at h
  split at h
  next _ timeout =>
    split at h
    next line pending hp =>
      cases h
      refine ⟨.takes line (pending ++ l.queue.reduceOption ++ l.stream) rfl ?_ rfl ?_, hs.leave _⟩
      · simp [Stage.sees, Stage.unmatched, Lines.all, hp]
      · rintro _ _ ⟨⟩
    next hp =>
      split at h
      · cases h
        exact ⟨.goes rfl rfl, hs.settle rfl fun _ => hp⟩
      · cases h
        exact ⟨.goes rfl rfl, hs.settle rfl fun _ => hp⟩
  next _ timeout limit =>
    have hp := hs.waits (.inl ⟨_, rfl⟩)
    split at h
    next item queue hq =>
      cases h
      cases item with
      | none =>
        refine ⟨.gives rfl (by simp [Stage.sees, Stage.unmatched, Lines.all, hq]) ?_, hs.leave _⟩
        rintro _ _ ⟨⟩
      | some line =>
        refine ⟨.takes line (queue.reduceOption ++ l.stream) rfl ?_ ?_ ?_, hs.leave _⟩
        · simp [Stage.sees, Stage.unmatched, Lines.all, hp, hq]
        · simp [Stage.sees, Stage.unmatched, Lines.all, hp]
        · rintro _ _ ⟨⟩
    next hq =>
      split at h
      · cases h
        refine ⟨.gives rfl rfl ?_, hs.leave _⟩
        rintro _ _ ⟨⟩
      · cases h
  next _ predicate timeout unmatched =>
    split at h
    next line pending hp =>
      cases h
      exact moves_judge hs (by simp [Stage.sees, Stage.unmatched, Lines.all, hp]) rfl
    next hp =>
      split at h
      next hlate =>
        cases h
        refine ⟨.gives rfl rfl ?_, hs.leave _⟩
        rintro _ _ ⟨⟩
        exact .inl ⟨hlate, hp, .inl rfl⟩
      next =>
        cases h
        exact ⟨.goes rfl rfl, hs.settle rfl fun _ => hp⟩
  next _ predicate timeout unmatched =>
    have hp := hs.waits (.inr ⟨_, rfl⟩)
    split at h
    next line queue hq =>
      cases h
      have hbefore : (Stage.fetching unmatched : Stage F α).sees l =
          unmatched ++ line :: (queue.reduceOption ++ l.stream) := by
        simp [Stage.sees, Stage.unmatched, Lines.all, hp, hq]
      exact moves_judge hs hbefore (by simp [Lines.all, hp])
    next queue hq =>
      cases h
      refine ⟨.gives rfl (by simp [Stage.sees, Stage.unmatched, Lines.all, hq]) ?_, hs.leave _⟩
      rintro _ _ ⟨⟩
      exact .inr ⟨rfl, queue, hq⟩
    next hq =>
      split at h
      next hlate =>
        cases h
        refine ⟨.gives rfl rfl ?_, hs.leave _⟩
        rintro _ _ ⟨⟩
        exact .inl ⟨hlate, hp, .inr hq⟩
      next => cases h
  next => cases h

end Local

/-! ## Steps of the whole reader -/

/-- A step of the `i`-th call, which leads to a stage, a holder of the lock, and lines. -/
inductive Turn (now : F) (i : Nat) (c : Call F α) (l : Lines α) (holder : Option Nat) :
    Stage F α → Option Nat → Lines α → Prop
  | enters (hstage : c.stage = .entering) (hfree : holder = none) :
      Turn now i c l holder (entered c.request) (some i) l
  | leaves (unmatched result) (hstage : c.stage = .leaving unmatched result) :
      Turn now i c l holder (.returned result) none { l with pending := unmatched ++ l.pending }
  | fails (hstage : c.stage = .failing) : Turn now i c l holder .raised none l
  | advances (stage' l') (h : advance now c.started c.request c.stage l = some (stage', l')) :
      Turn now i c l holder stage' holder l'

section Turns

variable {s s' : Reader F α} {i : Nat} {now : F} {c : Call F α}

theorem not_late {predicate : α → Bool} {timeout : F} {unmatched : List α}
    (hc : s.calls[i]? = some c) (hq : c.request = .readlineMatching predicate timeout)
    (hstage : c.stage = .scanning unmatched) (hpend : s.lines.pending = [])
    (hlate : deadline c.started timeout ≤ now) (h : late s (.act i now) = false) :
    ∀ x ∈ s.lines.queue.reduceOption, predicate x = false := by
  obtain ⟨request, started, stage⟩ := c
  cases hq
  cases hstage
  intro x hx
  simp only [late, hc, hpend, List.isEmpty_nil, Bool.true_and, decide_eq_true hlate] at h
  have hitem := List.any_eq_false.mp h (some x) (List.reduceOption_mem_iff.mp hx)
  simpa using hitem

theorem turn_of_act (h : act { s with clock := now } i c = some s') :
    ∃ stage' holder' l', Turn now i c s.lines s.holder stage' holder' l' ∧
      s' = ⟨l', s.closed, s.ended, holder', s.calls.set i { c with stage := stage' }, now⟩ := by
  unfold act at h
  split at h
  next hstage =>
    split at h
    next hfree =>
      cases h
      exact ⟨_, _, _, .enters hstage hfree, rfl⟩
    next => cases h
  next unmatched result hstage =>
    cases h
    exact ⟨_, _, _, .leaves unmatched result hstage, rfl⟩
  next hstage =>
    cases h
    exact ⟨_, _, _, .fails hstage, rfl⟩
  next => cases h
  next => cases h
  next =>
    obtain ⟨⟨stage', l'⟩, hadv, rfl⟩ := Option.map_eq_some_iff.mp h
    exact ⟨_, _, _, .advances stage' l' hadv, rfl⟩

theorem turn_of_step (h : step s (.act i now) = some s') :
    ∃ c stage' holder' l', s.calls[i]? = some c ∧ Turn now i c s.lines s.holder stage' holder' l' ∧
      s' = ⟨l', s.closed, s.ended, holder', s.calls.set i { c with stage := stage' }, now⟩ := by
  rw [step] at h
  split at h
  next =>
    obtain ⟨c, hc, hact⟩ := Option.bind_eq_some_iff.mp h
    obtain ⟨stage', holder', l', ht, hs⟩ := turn_of_act hact
    exact ⟨c, stage', holder', l', hc, ht, hs⟩
  next => cases h

end Turns

section Invariant

variable {s s' : Reader F α} {i : Nat} {now : F} {c : Call F α} {q : Request F α}
variable {stage stage' : Stage F α} {l l' : Lines α} {holder' : Option Nat}

/-- Why a call that looks for a line is given none. -/
inductive Missed (s : Reader F α) (i : Nat) (now : F) (c : Call F α) (predicate : α → Bool)
    (timeout : F) : Prop
  | late (hlate : deadline c.started timeout ≤ now)
      (havailable : late s (.act i now) = false → ∀ x ∈ available s, predicate x = false)
  | finished (hended : s.ended = true) (hnone : ∀ x ∈ remaining s, predicate x = false)

inductive Effect (s : Reader F α) (i : Nat) (now : F) (c : Call F α) (stage' : Stage F α)
    (after : List α) : Prop
  | keeps (hresult : stage'.result = c.stage.result) (h : after = remaining s)
  | gives (hopen : c.stage.result = none) (hresult : stage'.result = some none)
      (h : after = remaining s)
      (hwhy : ∀ predicate timeout, c.request = .readlineMatching predicate timeout →
        Missed s i now c predicate timeout)
  | takes (x : α) (rest : List α) (hopen : c.stage.result = none)
      (hresult : stage'.result = some (some x))
      (hbefore : remaining s = c.stage.unmatched ++ x :: rest)
      (hafter : after = c.stage.unmatched ++ rest)
      (hmatch : ∀ predicate timeout, c.request = .readlineMatching predicate timeout →
        predicate x = true)

theorem effect_of_turn (hw : Wf s) (hc : s.calls[i]? = some c)
    (ht : Turn now i c s.lines s.holder stage' holder' l') :
    Effect s i now c stage' (remaining
      ⟨l', s.closed, s.ended, holder', s.calls.set i { c with stage := stage' }, now⟩) := by
  have hlt := (List.getElem?_eq_some_iff.mp hc).1
  have hset : (s.calls.set i { c with stage := stage' })[i]? = some { c with stage := stage' } :=
    List.getElem?_set_self hlt
  have hin : c.stage.inside = true → remaining s = c.stage.sees s.lines := fun h =>
    remaining_inside ((hw.inside i c hc).mp h) hc
  cases ht with
  | enters hstage hfree =>
    refine .keeps ?_ ?_
    · rw [hstage]
      cases c.request <;> rfl
    · rw [remaining_free hfree, remaining_inside rfl hset]
      cases c.request <;> rfl
  | leaves unmatched result hstage =>
    refine .keeps (by rw [hstage]; rfl) ?_
    rw [hin (by rw [hstage]; rfl), remaining_free rfl, hstage]
    simp [Stage.sees, Stage.unmatched, Lines.all]
  | fails hstage =>
    refine .keeps (by rw [hstage]; rfl) ?_
    rw [hin (by rw [hstage]; rfl), remaining_free rfl, hstage]
    rfl
  | advances stage' l' h =>
    obtain ⟨hinside, hopen, -⟩ := advance_inside h
    have hholder := (hw.inside i c hc).mp hinside
    have hafter := remaining_inside
      (s := ⟨l', s.closed, s.ended, s.holder, s.calls.set i { c with stage := stage' }, now⟩)
      hholder hset
    have hsound := hw.sound i c hc
    rw [hafter]
    cases (advance_moves hsound h).1 with
    | goes hresult hsees =>
      exact .keeps (hresult.trans hopen.symm) (hsees.trans (hin hinside).symm)
    | gives hresult hsees hwhy =>
      refine .gives hopen hresult (hsees.trans (hin hinside).symm) fun predicate timeout hq => ?_
      obtain ⟨hlate, hpend, hwhere⟩ | ⟨hfetch, queue, hqueue⟩ := hwhy predicate timeout hq
      · refine .late hlate fun hseen x hx => ?_
        rw [available_inside hholder hc, Lines.ready, hpend, List.nil_append,
          List.mem_append] at hx
        obtain hx | hx := hx
        · exact hsound.fails predicate timeout hq x hx
        · obtain hscan | hqueue := hwhere
          · exact not_late hc hq hscan hpend hlate hseen x hx
          · rw [hqueue] at hx
            cases hx
      · obtain ⟨rfl, hended⟩ := hw.marker [] queue hqueue
        have hpend := hsound.waits (.inr ⟨_, hfetch⟩)
        refine .finished hended fun x hx => hsound.fails predicate timeout hq x ?_
        rw [hin hinside] at hx
        simpa [Stage.sees, Lines.all, hpend, hqueue, (hw.ended hended).1] using hx
    | takes x rest hresult hbefore hafter hmatch =>
      exact .takes x rest hopen hresult ((hin hinside).trans hbefore) hafter hmatch

theorem lines_of_turn (ht : Turn now i c l s.holder stage' holder' l') :
    l'.stream = l.stream ∧ ∃ taken, l.queue = taken ++ l'.queue := by
  cases ht with
  | enters | leaves | fails => exact ⟨rfl, [], rfl⟩
  | advances stage' l' h => exact advance_lines h

theorem holder_before (hw : Wf s) (hc : s.calls[i]? = some c)
    (ht : Turn now i c s.lines s.holder stage' holder' l') :
    s.holder = none ∨ s.holder = some i := by
  have hin := hw.inside i c hc
  cases ht with
  | enters hstage hfree => exact .inl hfree
  | leaves unmatched result hstage => exact .inr (hin.mp (by rw [hstage]; rfl))
  | fails hstage => exact .inr (hin.mp (by rw [hstage]; rfl))
  | advances stage' l' h => exact .inr (hin.mp (advance_inside h).1)

theorem holder_of_turn (hw : Wf s) (hc : s.calls[i]? = some c)
    (ht : Turn now i c s.lines s.holder stage' holder' l') :
    (stage'.inside = true ↔ holder' = some i) ∧
      ∀ j, j ≠ i → (s.holder = some j ↔ holder' = some j) := by
  have hin := hw.inside i c hc
  cases ht with
  | enters hstage hfree =>
    rw [hfree]
    refine ⟨?_, fun j hj => by simpa using fun h => hj h.symm⟩
    cases c.request <;> simp [entered, Stage.inside]
  | leaves unmatched result hstage =>
    have hholder := hin.mp (by rw [hstage]; rfl)
    exact ⟨by simp [Stage.inside], fun j hj => by simpa [hholder] using fun h => hj h.symm⟩
  | fails hstage =>
    have hholder := hin.mp (by rw [hstage]; rfl)
    exact ⟨by simp [Stage.inside], fun j hj => by simpa [hholder] using fun h => hj h.symm⟩
  | advances stage' l' h =>
    obtain ⟨hinside, -, hinside'⟩ := advance_inside h
    exact ⟨by simp [hinside', hin.mp hinside], fun _ _ => Iff.rfl⟩

theorem sound_of_turn (hw : Wf s) (hc : s.calls[i]? = some c)
    (ht : Turn now i c s.lines s.holder stage' holder' l') : Sound c.request stage' l' := by
  cases ht with
  | enters hstage hfree =>
    have hnone : (entered c.request : Stage F α).unmatched = [] := by cases c.request <;> rfl
    refine ⟨?_, fun _ _ => hnone, fun _ _ _ x hx => ?_⟩
    · rintro (⟨_, h⟩ | ⟨_, h⟩) <;> cases hq : c.request <;> rw [hq] at h <;> cases h
    · rw [hnone] at hx
      cases hx
  | leaves | fails => exact sound_outside rfl
  | advances stage' l' h => exact (advance_moves (hw.sound i c hc) h).2

theorem wf_turn (hw : Wf s) (hc : s.calls[i]? = some c)
    (ht : Turn now i c s.lines s.holder stage' holder' l') :
    Wf ⟨l', s.closed, s.ended, holder', s.calls.set i { c with stage := stage' }, now⟩ := by
  have hlt := (List.getElem?_eq_some_iff.mp hc).1
  obtain ⟨hself, hothers⟩ := holder_of_turn hw hc ht
  have hsound := sound_of_turn hw hc ht
  obtain ⟨hstream, taken, hqueue⟩ := lines_of_turn ht
  have hcall : ∀ j d, (s.calls.set i { c with stage := stage' })[j]? = some d →
      j = i ∧ d = { c with stage := stage' } ∨ j ≠ i ∧ s.calls[j]? = some d := by
    intro j d hd
    by_cases hj : j = i
    · subst hj
      rw [List.getElem?_set_self hlt] at hd
      exact .inl ⟨rfl, (Option.some.inj hd).symm⟩
    · rw [List.getElem?_set_ne (Ne.symm hj)] at hd
      exact .inr ⟨hj, hd⟩
  constructor
  · intro j d hd
    rcases hcall j d hd with ⟨rfl, rfl⟩ | ⟨hj, hd⟩
    · exact hself
    · exact (hw.inside j d hd).trans (hothers j hj)
  · intro j hj
    rw [List.length_set]
    by_cases hji : j = i
    · exact hji ▸ hlt
    · exact hw.held j ((hothers j hji).mpr hj)
  · intro j d hd
    rcases hcall j d hd with ⟨rfl, rfl⟩ | ⟨hj, hd⟩
    · exact hsound
    · apply sound_outside
      rw [Bool.eq_false_iff, ne_eq, hw.inside j d hd]
      rcases holder_before hw hc ht with h | h <;> simp [h, Ne.symm hj]
  · intro q₁ q₂ hq
    refine hw.marker (taken ++ q₁) q₂ ?_
    rw [hqueue, hq, List.append_assoc]
  · intro hended
    exact ⟨hstream.trans (hw.ended hended).1, (hw.ended hended).2⟩

theorem wf_step {label : Label F α} (hw : Wf s) (h : step s label = some s') : Wf s' := by
  cases label with
  | write line =>
    rw [step] at h
    split at h
    · cases h
    next hopen =>
      cases h
      refine ⟨hw.inside, hw.held, fun j d hd => (hw.sound j d hd).mono rfl, hw.marker, ?_⟩
      exact fun hended => (hopen (hw.ended hended).2).elim
  | close =>
    cases h
    exact ⟨hw.inside, hw.held, hw.sound, hw.marker, fun hended => ⟨(hw.ended hended).1, rfl⟩⟩
  | feed => exact wf_feed hw h
  | start request now =>
    rw [step] at h
    split at h
    next =>
      cases h
      have hcall : ∀ j d, (s.calls ++ [⟨request, now, .entering⟩])[j]? = some d →
          s.calls[j]? = some d ∨ j = s.calls.length ∧ d = ⟨request, now, .entering⟩ := by
        intro j d hd
        rw [List.getElem?_append] at hd
        split at hd
        · exact .inl hd
        next hlong =>
          have hj : j - s.calls.length < 1 := (List.getElem?_eq_some_iff.mp hd).1
          have hlen : j = s.calls.length := by omega
          refine .inr ⟨hlen, ?_⟩
          rw [hlen, Nat.sub_self] at hd
          exact (Option.some.inj hd).symm
      refine ⟨?_, ?_, ?_, hw.marker, hw.ended⟩
      · intro j d hd
        rcases hcall j d hd with hd | ⟨rfl, rfl⟩
        · exact hw.inside j d hd
        · simpa [Stage.inside] using fun hheld => Nat.lt_irrefl _ (hw.held _ hheld)
      · intro j hj
        rw [List.length_append]
        exact Nat.lt_add_right _ (hw.held j hj)
      · intro j d hd
        rcases hcall j d hd with hd | ⟨rfl, rfl⟩
        · exact hw.sound j d hd
        · exact sound_outside rfl
    next => cases h
  | act i now =>
    obtain ⟨c, stage', holder', l', hc, ht, rfl⟩ := turn_of_step h
    exact wf_turn hw hc ht

theorem wf_run {clock : F} {ls : List (Label F α)} (h : Run step (initial clock) ls s) : Wf s :=
  h.invariant (I := Wf) (wf_initial clock) fun _ _ _ hw _ hs => wf_step hw hs

end Invariant

/-! ## Runs -/

section Runs

variable {s s' : Reader F α} {ls : List (Label F α)} {label : Label F α} {clock now : F} {i : Nat}
variable {c : Call F α}

/-- What a step does to the lines that are left and to those that were returned. -/
inductive Flows (s : Reader F α) (label : Label F α) (s' : Reader F α) : Prop
  | keeps (hreturned : returned s' = returned s)
      (hremaining : remaining s' = remaining s ++ writes label)
  | takes (x : α) (before after : List α) (hact : ∃ i now, label = .act i now)
      (hreturned : (returned s').Perm (x :: returned s))
      (hbefore : remaining s = before ++ x :: after) (hafter : remaining s' = before ++ after)

theorem flows_step (hw : Wf s) (h : step s label = some s') : Flows s label s' := by
  cases label with
  | write line =>
    rw [step] at h
    split at h
    · cases h
    · cases h
      exact .keeps rfl (by simp [remaining, Lines.all, writes])
  | close =>
    cases h
    exact .keeps rfl (List.append_nil _).symm
  | feed =>
    rw [step, feed] at h
    split at h
    next line stream hstream =>
      cases h
      refine .keeps rfl ?_
      simp [remaining, Lines.all, writes, hstream, List.reduceOption_append,
        List.reduceOption_singleton]
    next hstream =>
      split at h
      · cases h
        refine .keeps rfl ?_
        simp [remaining, Lines.all, writes, List.reduceOption_append, List.reduceOption_singleton]
      · cases h
  | start request now =>
    rw [step] at h
    split at h
    next =>
      cases h
      refine .keeps (by simp [returned, Stage.result]) (Eq.trans ?_ (List.append_nil _).symm)
      cases hholder : s.holder with
      | none =>
        rw [remaining_free hholder]
        exact remaining_free rfl
      | some i =>
        have hlt := hw.held i hholder
        simp [remaining, hholder, List.getElem?_append_left hlt]
    next => cases h
  | act i now =>
    obtain ⟨c, stage', holder', l', hc, ht, rfl⟩ := turn_of_step h
    obtain ⟨before, after, hold, hnew⟩ := returned_set hc stage'
    cases effect_of_turn hw hc ht with
    | keeps hresult hsame =>
      refine .keeps ?_ (by rw [hsame]; exact (List.append_nil _).symm)
      rw [returned, returned, hnew, hold, hresult]
    | gives hopen hresult hsame =>
      refine .keeps ?_ (by rw [hsame]; exact (List.append_nil _).symm)
      rw [returned, returned, hnew, hold, hresult, hopen]
      rfl
    | takes x rest hopen hresult hbefore hafter =>
      refine .takes x _ rest ⟨i, now, rfl⟩ ?_ hbefore hafter
      rw [returned, returned, hnew, hold, hresult, hopen]
      exact List.perm_middle

/-- Every line is returned once or left, and those that are left keep their order. -/
structure Kept (ls : List (Label F α)) (s : Reader F α) : Prop where
  once : (returned s ++ remaining s).Perm (written ls)
  ordered : (remaining s).Sublist (written ls)

theorem kept_run (h : Run step (initial clock) ls s) : Kept ls s := by
  induction h with
  | refl => exact ⟨.refl _, .refl _⟩
  | @tail s s' ls label hrun _ hs ih =>
    cases flows_step (wf_run hrun) hs with
    | keeps hreturned hremaining =>
      constructor
      · rw [written_snoc, hreturned, hremaining, ← List.append_assoc]
        exact ih.once.append_right _
      · rw [written_snoc, hremaining]
        exact ih.ordered.append (.refl _)
    | takes x before after hact hreturned hbefore hafter =>
      have hnot : writes label = [] := by
        obtain ⟨_, _, rfl⟩ := hact
        rfl
      have honce := ih.once
      have hordered := ih.ordered
      rw [hbefore] at honce hordered
      constructor
      · rw [written_snoc, hnot, List.append_nil, hafter]
        refine (hreturned.append_right _).trans (List.Perm.trans ?_ honce)
        exact (List.perm_middle.symm.trans (List.Perm.append_left _ List.perm_middle.symm))
      · rw [written_snoc, hnot, List.append_nil, hafter]
        exact ((List.sublist_cons_self x after).append_left before).trans hordered

def takes (s : Reader F α) (label : Label F α) : List α :=
  match label with
  | .act i _ =>
    match (s.calls[i]?).bind (·.stage.result),
      (step s label).bind fun s' => (s'.calls[i]?).bind (·.stage.result) with
    | none, some (some x) => [x]
    | _, _ => []
  | _ => []

theorem turn_open {holder holder' : Option Nat} {stage' : Stage F α} {l l' : Lines α}
    (ht : Turn now i c l holder stage' holder' l') : c.stage.done = false := by
  cases ht with
  | enters h | leaves _ _ h | fails h => rw [h]; rfl
  | advances stage' l' h =>
    have hinside := (advance_inside h).1
    cases hstage : c.stage <;> rw [hstage] at hinside <;> first | rfl | cases hinside

theorem ordinary_step (ho : Ordinary s) (hplain : label.plain = true) (h : step s label = some s') :
    Ordinary s' := by
  cases label with
  | write line =>
    rw [step] at h
    split at h
    · cases h
    · cases h
      exact ho
  | close =>
    cases h
    exact ho
  | feed =>
    rw [step, feed] at h
    split at h
    · cases h
      exact ho
    · split at h
      · cases h
        exact ho
      · cases h
  | start request now =>
    rw [step] at h
    split at h
    next =>
      cases h
      rintro c hc predicate timeout hq
      rcases List.mem_append.mp hc with hc | hc
      · exact ho c hc predicate timeout hq
      · obtain rfl := List.mem_singleton.mp hc
        obtain rfl : request = .readlineMatching predicate timeout := hq
        cases hplain
    next => cases h
  | act i now =>
    obtain ⟨c, stage', holder', l', hc, ht, rfl⟩ := turn_of_step h
    rintro d hd predicate timeout hq
    rcases List.mem_or_eq_of_mem_set hd with hd | rfl
    · exact ho d hd predicate timeout hq
    · have hdone := ho c (List.mem_of_getElem? hc) predicate timeout hq
      cases hdone.symm.trans (turn_open ht)

theorem takes_of_turn {stage' : Stage F α} {holder' : Option Nat} {l' : Lines α}
    (hc : s.calls[i]? = some c)
    (h : step s (.act i now) =
      some ⟨l', s.closed, s.ended, holder', s.calls.set i { c with stage := stage' }, now⟩) :
    takes s (.act i now) = match c.stage.result, stage'.result with
      | none, some (some x) => [x]
      | _, _ => [] := by
  have hlt := (List.getElem?_eq_some_iff.mp hc).1
  simp only [takes, h, hc, Option.bind_some, List.getElem?_set_self hlt]

theorem takes_front (hw : Wf s) (ho : Ordinary s) (h : step s label = some s') :
    remaining s ++ writes label = takes s label ++ remaining s' := by
  cases label with
  | write | close | feed | start =>
    cases flows_step hw h with
    | keeps _ hremaining => exact hremaining.symm
    | takes _ _ _ hact => obtain ⟨_, _, h⟩ := hact; cases h
  | act i now =>
    obtain ⟨c, stage', holder', l', hc, ht, rfl⟩ := turn_of_step h
    rw [takes_of_turn hc h]
    cases effect_of_turn hw hc ht with
    | keeps hresult hsame =>
      rw [hsame, hresult]
      cases c.stage.result <;> exact List.append_nil _
    | gives hopen hresult hsame =>
      rw [hsame, hopen, hresult]
      exact List.append_nil _
    | takes x rest hopen hresult hbefore hafter =>
      have hfront : c.stage.unmatched = [] := by
        cases hq : c.request with
        | readline timeout => exact (hw.sound i c hc).plain timeout hq
        | readlineMatching predicate timeout =>
          have hdone := ho c (List.mem_of_getElem? hc) predicate timeout hq
          cases hdone.symm.trans (turn_open ht)
      rw [hopen, hresult, hafter, hbefore, hfront]
      exact List.append_nil _

theorem takes_run (hw : Wf s) (hidle : Idle s) (h : Run step s ls s')
    (hplain : ∀ label ∈ ls, label.plain = true) :
    trace step takes s ls ++ remaining s' = remaining s ++ written ls := by
  have hboth : Wf s' ∧ Ordinary s' ∧
      trace step takes s ls ++ remaining s' = remaining s ++ written ls := by
    induction h with
    | refl => exact ⟨hw, ordinary_of_idle hidle, (List.append_nil _).symm⟩
    | @tail s₁ s₂ ls label hrun _ hs ih =>
      obtain ⟨hw₁, ho₁, heq⟩ := ih fun label hl => hplain label (List.mem_append_left _ hl)
      have hlabel := hplain label (by simp)
      refine ⟨wf_step hw₁ hs, ordinary_step ho₁ hlabel hs, ?_⟩
      rw [trace_snoc _ hrun, List.append_assoc, ← takes_front hw₁ ho₁ hs, ← List.append_assoc, heq,
        written_snoc, List.append_assoc]
  exact hboth.2.2

end Runs

/-! ## Reading what is left -/

section Drain

variable {s : Reader F α} {x : α} {rest : List α}

def busy (s : Reader F α) (stage : Stage F α) (holder : Option Nat)
    (lines : Lines α) : Reader F α :=
  { s with lines, holder, calls := s.calls ++ [⟨.readline 0, s.clock, stage⟩] }

omit [LinearOrder F] [Add F] in
theorem setStage_busy (s : Reader F α) (stage stage' : Stage F α)
    (holder : Option Nat) (l : Lines α) :
    (busy s stage holder l).setStage s.calls.length ⟨.readline 0, s.clock, stage⟩ stage' =
      busy s stage' holder l := by
  simp [Reader.setStage, busy]

theorem step_busy (s : Reader F α) (stage : Stage F α) (holder : Option Nat) (l : Lines α) :
    step (busy s stage holder l) (.act s.calls.length s.clock) =
      act (busy s stage holder l) s.calls.length ⟨.readline 0, s.clock, stage⟩ := by
  simp [step, busy]

theorem step_start (hfree : s.holder = none) :
    step s (.start (.readline 0) s.clock) = some (busy s .entering none s.lines) := by
  simp [step, busy, hfree]

theorem step_enter (s : Reader F α) (l : Lines α) :
    step (busy s .entering none l) (.act s.calls.length s.clock) =
      some (busy s .reading (some s.calls.length) l) := by
  rw [step_busy, act]
  simp only [setStage_busy, entered]
  rfl

theorem step_advance {stage stage' : Stage F α} {l l' : Lines α}
    (hmap : act (busy s stage (some s.calls.length) l) s.calls.length
      ⟨.readline 0, s.clock, stage⟩ =
      (advance s.clock s.clock (.readline 0) stage l).map fun (stage', l') =>
        { busy s stage' (some s.calls.length) l with lines := l' })
    (hadv : advance s.clock s.clock (.readline 0) stage l = some (stage', l')) :
    step (busy s stage (some s.calls.length) l) (.act s.calls.length s.clock) =
      some (busy s stage' (some s.calls.length) l') := by
  rw [step_busy, hmap, hadv]
  rfl

theorem step_read {pending : List α} (s : Reader F α) {l : Lines α}
    (hp : l.pending = x :: pending) :
    step (busy s .reading (some s.calls.length) l) (.act s.calls.length s.clock) =
      some (busy s (.leaving [] (some x)) (some s.calls.length) { l with pending }) := by
  refine step_advance ?_ (by simp [advance, hp])
  simp only [act, setStage_busy]
  rfl

theorem step_wait (s : Reader F α) {l : Lines α} (hp : l.pending = []) :
    step (busy s .reading (some s.calls.length) l) (.act s.calls.length s.clock) =
      some (busy s (.getting (s.clock + 0)) (some s.calls.length) l) := by
  refine step_advance ?_ (by simp [advance, hp])
  simp only [act, setStage_busy]
  rfl

theorem step_get {queue : List (Option α)} (s : Reader F α) {l : Lines α}
    (hq : l.queue = some x :: queue) :
    step (busy s (.getting (s.clock + 0)) (some s.calls.length) l) (.act s.calls.length s.clock) =
      some (busy s (.leaving [] (some x)) (some s.calls.length) { l with queue }) := by
  refine step_advance ?_ (by simp [advance, hq])
  simp only [act, setStage_busy]
  rfl

theorem step_leave (s : Reader F α) (l : Lines α) :
    step (busy s (.leaving [] (some x)) (some s.calls.length) l) (.act s.calls.length s.clock) =
      some (busy s (.returned (some x)) none l) := by
  rw [step_busy, act]
  simp only [setStage_busy]
  rfl

/-- The labels of a call of `readline` that takes `n` more steps. -/
def reading (s : Reader F α) (n : Nat) : List (Label F α) :=
  .start (.readline 0) s.clock :: List.replicate n (.act s.calls.length s.clock)

theorem run_pending {pending : List α} (hfree : s.holder = none)
    (hp : s.lines.pending = x :: pending) :
    Run step s (reading s 3) (busy s (.returned (some x)) none { s.lines with pending }) :=
  path_of_exec (by
    simp [reading, Library.exec, step_start hfree, step_enter, step_read s hp, step_leave])

theorem run_queue {queue : List (Option α)} (hfree : s.holder = none) (hp : s.lines.pending = [])
    (hq : s.lines.queue = some x :: queue) :
    Run step s (reading s 4) (busy s (.returned (some x)) none { s.lines with queue }) :=
  path_of_exec (by
    simp [reading, Library.exec, step_start hfree, step_enter, step_wait s hp, step_get s hq,
      step_leave])

omit [LinearOrder F] [Add F] in
theorem idle_busy (hidle : Idle s) (result : Option α) (l : Lines α) :
    Idle (busy s (.returned result) none l) := by
  intro c hc
  rcases List.mem_append.mp hc with hc | hc
  · exact hidle c hc
  · rw [List.mem_singleton.mp hc]
    rfl

/-- A run that only reads: no line is written, and nobody looks for a particular one. -/
structure Reading (s : Reader F α) (ls : List (Label F α)) (s' : Reader F α) : Prop where
  run : Run step s ls s'
  plain : ∀ label ∈ ls, label.plain = true
  silent : written ls = []

omit [LinearOrder F] [Add F] in
theorem reading_plain (s : Reader F α) (n : Nat) : ∀ label ∈ reading s n, label.plain = true := by
  intro label hl
  rcases List.mem_cons.mp hl with rfl | hl
  · rfl
  · rw [(List.mem_replicate.mp hl).2]
    rfl

omit [LinearOrder F] [Add F] in
theorem reading_silent (s : Reader F α) (n : Nat) : written (reading s n) = [] := by
  simp [written, reading, writes]

theorem read_front (hw : Wf s) (hidle : Idle s) (hx : remaining s = x :: rest)
    (hready : s.lines.pending ++ s.lines.queue.reduceOption ≠ []) :
    ∃ ls s', Reading s ls s' ∧ Idle s' ∧ remaining s' = rest := by
  have hfree := free_of_idle hw hidle
  rw [remaining_free hfree, Lines.all] at hx
  cases hp : s.lines.pending with
  | cons y pending =>
    rw [hp] at hx
    obtain ⟨rfl, hrest⟩ := List.cons.inj hx
    refine ⟨_, _, ⟨run_pending hfree hp, reading_plain s 3, reading_silent s 3⟩,
      idle_busy hidle _ _, ?_⟩
    rw [remaining_free rfl]
    exact hrest
  | nil =>
    rw [hp, List.nil_append] at hx hready
    cases hq : s.lines.queue with
    | nil => exact (hready (by rw [hq]; rfl)).elim
    | cons item queue =>
      cases item with
      | none =>
        obtain ⟨rfl, -⟩ := hw.marker [] queue hq
        exact (hready (by rw [hq]; rfl)).elim
      | some y =>
        rw [hq, List.reduceOption_cons_of_some] at hx
        obtain ⟨rfl, hrest⟩ := List.cons.inj hx
        refine ⟨_, _, ⟨run_queue hfree hp hq, reading_plain s 4, reading_silent s 4⟩,
          idle_busy hidle _ _, ?_⟩
        rw [remaining_free rfl]
        simpa [Lines.all, busy, hp] using hrest

theorem read_next (hw : Wf s) (hidle : Idle s) (hx : remaining s = x :: rest) :
    ∃ ls s', Reading s ls s' ∧ Idle s' ∧ remaining s' = rest := by
  by_cases hready : s.lines.pending ++ s.lines.queue.reduceOption = []
  · have hfree := free_of_idle hw hidle
    have hstream : s.lines.stream = x :: rest := by
      rw [remaining_free hfree, Lines.all, hready] at hx
      exact hx
    obtain ⟨s₁, hfed, hidle₁, hlines⟩ : ∃ s₁, step s .feed = some s₁ ∧ Idle s₁ ∧
        s₁.lines = ⟨rest, s.lines.queue ++ [some x], s.lines.pending⟩ := by
      simp only [step, feed, hstream]
      exact ⟨_, rfl, hidle, rfl⟩
    have hw₁ := wf_step hw hfed
    have hx₁ : remaining s₁ = x :: rest := by
      rw [remaining_free (free_of_idle hw₁ hidle₁), Lines.all, hlines]
      simp only [List.reduceOption_append, ← List.append_assoc, hready]
      rfl
    obtain ⟨ls, s', hr, hidle', hrest⟩ := read_front hw₁ hidle₁ hx₁
      (by simp [hlines, List.reduceOption_append, List.reduceOption_singleton])
    refine ⟨.feed :: ls, s', ⟨(Path.single trivial hfed).trans hr.run, ?_, ?_⟩, hidle', hrest⟩
    · rintro label hl
      rcases List.mem_cons.mp hl with rfl | hl
      · rfl
      · exact hr.plain label hl
    · exact hr.silent
  · exact read_front hw hidle hx hready

theorem read_all (hw : Wf s) (hidle : Idle s) :
    ∃ ls s', Reading s ls s' ∧ Idle s' ∧ remaining s' = [] := by
  generalize hlines : remaining s = lines
  induction lines generalizing s with
  | nil => exact ⟨[], s, ⟨.refl, by simp, rfl⟩, hidle, hlines⟩
  | cons x rest ih =>
    obtain ⟨ls₁, s₁, hr₁, hidle₁, hrest⟩ := read_next hw hidle hlines
    have hw₁ : Wf s₁ := hr₁.run.invariant (I := Wf) hw fun _ _ _ hw _ hs => wf_step hw hs
    obtain ⟨ls₂, s₂, hr₂, hidle₂, hnone⟩ := ih hw₁ hidle₁ hrest
    refine ⟨ls₁ ++ ls₂, s₂, ⟨hr₁.run.trans hr₂.run, ?_, ?_⟩, hidle₂, hnone⟩
    · intro label hl
      exact (List.mem_append.mp hl).elim (hr₁.plain label) (hr₂.plain label)
    · rw [written, List.flatMap_append]
      exact List.append_eq_nil_iff.mpr ⟨hr₁.silent, hr₂.silent⟩

end Drain

/-! ## The reader as a whole -/

/-- What a step of a call does with the lines that were left. A call that looks for a line gets
none only when none of the available lines is one, and its time is over or no line will come. -/
structure Serves (s : Reader F α) (now : F) (c : Call F α) (stage' : Stage F α)
    (after : List α) : Prop where
  settled : ∀ result, c.stage.result = some result →
    stage'.result = some result ∧ after = remaining s
  waits : c.stage.result = none → stage'.result = none → after = remaining s
  gives : c.stage.result = none → stage'.result = some none → after = remaining s ∧
    ∀ predicate timeout, c.request = .readlineMatching predicate timeout →
      (∀ x ∈ available s, predicate x = false) ∧
        (deadline c.started timeout ≤ now ∨
          s.ended = true ∧ ∀ x ∈ remaining s, predicate x = false)
  front : ∀ timeout x, c.request = .readline timeout → c.stage.result = none →
    stage'.result = some (some x) → remaining s = x :: after
  first : ∀ predicate timeout x, c.request = .readlineMatching predicate timeout →
    c.stage.result = none → stage'.result = some (some x) →
      (remaining s).find? predicate = some x ∧ after = (remaining s).eraseP predicate

omit [LinearOrder F] [Add F] [Zero F] in
theorem first_match {predicate : α → Bool} {x : α} {before after : List α}
    (hfails : ∀ y ∈ before, predicate y = false) (hx : predicate x = true) :
    (before ++ x :: after).find? predicate = some x ∧
      (before ++ x :: after).eraseP predicate = before ++ after := by
  induction before with
  | nil => simp [hx]
  | cons y before ih =>
    have hy := hfails y List.mem_cons_self
    obtain ⟨hfind, herase⟩ := ih fun z hz => hfails z (List.mem_cons_of_mem _ hz)
    constructor
    · simpa [hy] using hfind
    · simpa [hy] using herase

omit [LinearOrder F] [Add F] [Zero F] in
theorem available_subset (s : Reader F α) : ∀ x ∈ available s, x ∈ remaining s := by
  intro x hx
  rw [available, Lines.ready] at hx
  rw [remaining, Lines.all]
  obtain hx | hx := List.mem_append.mp hx
  · exact List.mem_append_left _ hx
  · exact List.mem_append_right _ (List.mem_append_left _ hx)

theorem serves_of_effect {s : Reader F α} {i : Nat} {now : F} {c : Call F α}
    {stage' : Stage F α} {after : List α} {l : Lines α} (hs : Sound c.request c.stage l)
    (hlate : late s (.act i now) = false) (he : Effect s i now c stage' after) :
    Serves s now c stage' after := by
  cases he with
  | keeps hresult h =>
    refine ⟨fun r hr => ⟨hresult.trans hr, h⟩, fun _ _ => h, ?_, ?_, ?_⟩
    · intro hopen hgives
      cases (hresult.trans hopen).symm.trans hgives
    · intro _ _ _ hopen htakes
      cases (hresult.trans hopen).symm.trans htakes
    · intro _ _ _ _ hopen htakes
      cases (hresult.trans hopen).symm.trans htakes
  | gives hopen hresult h hwhy =>
    refine ⟨fun r hr => ?_, fun _ _ => h, fun _ _ => ⟨h, fun predicate timeout hq => ?_⟩, ?_, ?_⟩
    · cases hopen.symm.trans hr
    · cases hwhy predicate timeout hq with
      | late hover havailable => exact ⟨havailable hlate, .inl hover⟩
      | finished hended hnone =>
        exact ⟨fun x hx => hnone x (available_subset s x hx), .inr ⟨hended, hnone⟩⟩
    · intro _ _ _ _ htakes
      cases hresult.symm.trans htakes
    · intro _ _ _ _ _ htakes
      cases hresult.symm.trans htakes
  | takes x rest hopen hresult hbefore hafter hmatch =>
    refine ⟨fun r hr => ?_, fun _ hwaits => ?_, fun _ hgives => ?_, ?_, ?_⟩
    · cases hopen.symm.trans hr
    · cases hresult.symm.trans hwaits
    · cases hresult.symm.trans hgives
    · intro timeout y hq _ htakes
      cases hresult.symm.trans htakes
      rw [hbefore, hafter, hs.plain timeout hq]
      rfl
    · intro predicate timeout y hq _ htakes
      cases hresult.symm.trans htakes
      rw [hbefore, hafter]
      obtain ⟨hfind, herase⟩ := first_match (hs.fails predicate timeout hq)
        (hmatch predicate timeout hq)
      exact ⟨hfind, herase.symm⟩

/-- The step does what the callers were promised. -/
def Right (s : Reader F α) (label : Label F α) : Prop :=
  ∀ i now c s', label = .act i now → s.calls[i]? = some c → step s label = some s' →
    ∃ stage', s'.calls[i]? = some { c with stage := stage' } ∧
      Serves s now c stage' (remaining s')

/-- No step comes to the queue too late for a line that is there. -/
def Timely (s : Reader F α) (label : Label F α) : Prop := late s label = false

instance (s : Reader F α) (label : Label F α) : Decidable (Timely s label) :=
  inferInstanceAs (Decidable (late s label = false))

theorem right_of_timely {s : Reader F α} {label : Label F α} (hw : Wf s) (h : Timely s label) :
    Right s label := by
  rintro i now c s' rfl hc hs
  obtain ⟨d, stage', holder', l', hd, ht, rfl⟩ := turn_of_step hs
  obtain rfl := Option.some.inj (hc.symm.trans hd)
  have hlt := (List.getElem?_eq_some_iff.mp hc).1
  exact ⟨stage', List.getElem?_set_self hlt,
    serves_of_effect (hw.sound i c hc) h (effect_of_turn hw hc ht)⟩

theorem timely_of_right {s s' : Reader F α} {label : Label F α} (hw : Wf s)
    (hs : step s label = some s') (h : Right s label) : Timely s label := by
  rw [Timely, Bool.eq_false_iff]
  intro hlate
  cases label with
  | write | close | feed | start => cases hlate
  | act i now =>
    rw [late] at hlate
    split at hlate
    next predicate timeout started unmatched hc =>
      rw [Bool.and_eq_true, Bool.and_eq_true, List.isEmpty_iff, decide_eq_true_eq,
        List.any_eq_true] at hlate
      obtain ⟨⟨hpend, hover⟩, item, hitem, hmatch⟩ := hlate
      obtain ⟨x, rfl, hx⟩ := (Option.any_eq_true _ _).mp hmatch
      obtain ⟨stage', hcall, hserves⟩ := h i now _ s' rfl hc hs
      obtain ⟨d, stage'', holder', l', hd, ht, rfl⟩ := turn_of_step hs
      obtain rfl := Option.some.inj (hc.symm.trans hd)
      have hlt := (List.getElem?_eq_some_iff.mp hc).1
      cases (List.getElem?_set_self hlt).symm.trans hcall
      have hgives : stage' = .leaving unmatched none := by
        cases ht with
        | enters hstage | leaves _ _ hstage | fails hstage => cases hstage
        | advances _ _ hadv =>
          simp only [advance, hpend, if_pos hover] at hadv
          cases hadv
          rfl
      have hnone := ((hserves.gives rfl (by rw [hgives]; rfl)).2 predicate timeout rfl).1 x
      rw [available_inside ((hw.inside i _ hc).mp rfl) hc] at hnone
      have hready : x ∈ s.lines.ready :=
        List.mem_append_right _ (List.reduceOption_mem_iff.mpr hitem)
      cases (hnone (List.mem_append_right _ hready)).symm.trans hx
    next => cases hlate

/-- Nothing is lost, given twice or reordered, and each step of the run serves its call. -/
structure Faithful (clock : F) (ls : List (Label F α)) (s : Reader F α) : Prop where
  kept : Kept ls s
  serves : Path step Right (initial clock) ls s
  later : Idle s → ∀ ls' s', Run step s ls' s' → (∀ label ∈ ls', label.plain = true) →
    trace step takes s ls' ++ remaining s' = remaining s ++ written ls'
  drains : Idle s → ∃ ls' s', Reading s ls' s' ∧ trace step takes s ls' = remaining s

/-- The answer to an earlier task is in the queue before the acknowledgement that is looked for. -/
def lateAnswer : List (Label Int String) :=
  [.write "RESULT", .write "RECONFIGURED", .feed, .feed,
    .start (.readlineMatching (fun line => line = "RECONFIGURED") 1) 0] ++
    List.replicate 6 (.act 0 0) ++ .start (.readline 1) 0 :: List.replicate 3 (.act 1 0)

def noTime : List (Label Int String) :=
  [.write "RECONFIGURED", .feed,
    .start (.readlineMatching (fun line => line = "RECONFIGURED") 0) 0, .act 0 0]

end SubagentBridge.Execution.TimedStreamReader
