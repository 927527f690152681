import SubagentBridge.Approval.DecisionRecords

/-! What a resolution that raises leaves behind: it changes neither the table nor a memory,
unless it found its request overdue. -/

namespace SubagentBridge.OperatorBoundary

open Library

/-! ## The discipline of a resolution that raises -/

section Tame

variable {τ : Type} [LinearOrder τ]

def Idle : Op τ → Prop
  | .putRequest _ _ | .insertRow _ | .updateRow _ _ | .consumeRow _ _ _ _ => False
  | _ => True

/-- The call resolves `actionId` on the snapshot `req`, whose deadline has passed. -/
structure Overdue (boundary : Nat) (actionId : String) (h : History τ)
    (req : OperatorApprovalRequest τ) : Prop where
  snapshot : ⟨.getRequest boundary actionId, .ok (some req)⟩ ∈ h
  undecided : req.state = .blocked ∨ req.state = .questionPending
  late : ∃ now, ⟨.now, .ok now⟩ ∈ h ∧ req.expiresAt ≤ now

abbrev OperatorApprovalRequest.lapsed (req : OperatorApprovalRequest τ) :
    OperatorApprovalRequest τ := { req with state := .expired }

inductive Tame (self : Nat) (actionId : String) (h : History τ) : Event (sig τ) Error → Prop
  | idle {o : Op τ} (r : Except Error o.Ret) : Idle o → Tame self actionId h ⟨o, r⟩
  | missed (req expected : OperatorApprovalRequest τ) (r : Except Error Nat) :
      r ≠ .ok (1 : Nat) → Tame self actionId h ⟨.updateRow req expected, r⟩
  | lapses (req : OperatorApprovalRequest τ) : Overdue self actionId h req →
      Tame self actionId h ⟨.updateRow req.lapsed req, .ok (1 : Nat)⟩
  | follows (req : OperatorApprovalRequest τ) : Overdue self actionId h req →
      Tame self actionId h ⟨.putRequest self req.lapsed, .ok ()⟩
  | refreshes (req m : OperatorApprovalRequest τ) (n : Nat) (rows : List (Row τ)) (r : Row τ)
      (now : τ) : Overdue self actionId h req →
      ⟨.updateRow req.lapsed req, .ok n⟩ ∈ h → n ≠ 1 → ⟨.selectRows, .ok rows⟩ ∈ h → r ∈ rows →
      r.load now = .ok m → Tame self actionId h ⟨.putRequest self m, .ok ()⟩

def Tamed (self : Nat) (actionId : String) (h : History τ) : Prop :=
  ∀ h₁ e h₂, h = h₁ ++ e :: h₂ → Tame self actionId h₁ e

def Answers : (o : Op τ) → Except Error o.Ret → Prop
  | .putRequest _ _, r => r = .ok ()
  | .updateRow _ _, r => ∀ e, r = .error e → e = .sqlite
  | _, _ => True

abbrev answering : Protocol (sig τ) Error :=
  .ofHistory (fun (_ : Request τ) _ _ => True) Answers

variable {self : Nat} {actionId : String} {q : Request τ} {h h' : History τ} {now : τ}
variable {req expected : OperatorApprovalRequest τ} {α : Type}

theorem tamed_nil : Tamed self actionId ([] : History τ) := by
  intro h₁ e h₂ hh
  simp at hh

theorem tamed_snoc {e : Event (sig τ) Error} (ht : Tamed self actionId h)
    (he : Tame self actionId h e) : Tamed self actionId (h ++ [e]) := by
  intro h₁ e' h₂ hh
  rcases List.eq_nil_or_concat h₂ with rfl | ⟨h₃, e₃, rfl⟩
  · obtain ⟨rfl, rfl⟩ := List.append_singleton_inj.mp hh
    exact he
  · rw [List.concat_eq_append, ← List.cons_append, ← List.append_assoc] at hh
    exact ht _ _ _ (List.append_singleton_inj.mp hh).1

theorem Overdue.mono (ho : Overdue self actionId h req) (hh : h <+: h') :
    Overdue self actionId h' req where
  snapshot := hh.subset ho.snapshot
  undecided := ho.undecided
  late := ho.late.imp fun _ hn => ⟨hh.subset hn.1, hn.2⟩

/-- A part of a call that has gone on from `h` and is still tame. -/
def StaysTame (self : Nat) (actionId : String) (q : Request τ) (h : History τ)
    (m : (answering (τ := τ)).Mode) (_ : Except Error α) : Prop :=
  m.1 = q ∧ h <+: m.2 ∧ Tamed self actionId m.2

theorem idle_tame {p : Call τ α} (hp : p.Only Idle) (ht : Tamed self actionId h) :
    p.Follows answering (StaysTame self actionId q h) (q, h) := by
  refine Proc.Only.follows (P := answering)
    (I := fun m => m.1 = q ∧ h <+: m.2 ∧ Tamed self actionId m.2) hp
    ⟨rfl, List.prefix_rfl, ht⟩ ?_
  rintro ⟨q', h'⟩ o ⟨rfl, hh, ht'⟩ ho
  refine ⟨trivial, fun r _ => ⟨rfl, hh.trans (List.prefix_append ..), ?_⟩⟩
  exact tamed_snoc ht' (.idle r ho)

theorem swapRequest_tame (ht : Tamed self actionId h) :
    (swapRequest req expected).Follows answering
      (fun m r => ∀ e, r = .error e → Tamed self actionId m.2) (q, h) := by
  simp only [swapRequest, Proc.bind_eq]
  split
  · exact fun _ _ => ht
  split
  · exact fun _ _ => ht
  refine (Proc.follows_op_bind ..).mpr ⟨trivial, fun n _ => ?_, fun e _ e' _ => ?_⟩
  · by_cases hn : n = (1 : Nat)
    · rw [Proc.require, if_pos hn]
      rintro e ⟨⟩
    · rw [Proc.require, if_neg hn]
      exact fun _ _ => tamed_snoc ht (.missed _ _ _ fun hr => hn (Except.ok.inj hr))
  · exact tamed_snoc ht (.missed _ _ _ (by rintro ⟨⟩))

theorem swapRequest_lapsed (hreq : req.state = .blocked ∨ req.state = .questionPending) :
    swapRequest req.lapsed req = (perform (.updateRow req.lapsed req)).bind fun n =>
      Proc.require (n = (1 : Nat)) (.permission
        "DENIED: stale operator decision or terminal approval changed in another process") := by
  rcases hreq with hreq | hreq <;> simp [swapRequest, permitted, hreq]

def Lost (h : History τ) (req : OperatorApprovalRequest τ) : Prop :=
  ∃ n : Nat, ⟨.updateRow req.lapsed req, .ok n⟩ ∈ h ∧ n ≠ 1

theorem lapse_tame (ht : Tamed self actionId h) (ho : Overdue self actionId h req) :
    ((swapRequest req.lapsed req).bind fun _ => .ret true).Follows answering
      (fun m r => StaysTame self actionId q h m r ∧ r ≠ .ok false ∧
        ∀ e, r = .error (.permission e) → Lost m.2 req) (q, h) := by
  rw [swapRequest_lapsed ho.undecided, Proc.bind_assoc]
  refine (Proc.follows_op_bind ..).mpr ⟨trivial, fun n _ => ?_, fun e he => ?_⟩
  · by_cases hn : n = (1 : Nat)
    · subst hn
      exact ⟨⟨rfl, by simp, tamed_snoc ht (.lapses req ho)⟩, by rintro ⟨⟩, by rintro _ ⟨⟩⟩
    · rw [Proc.require, if_neg hn]
      have hmiss := tamed_snoc ht (.missed req.lapsed req _ fun hr => hn (Except.ok.inj hr))
      exact ⟨⟨rfl, by simp, hmiss⟩, by rintro ⟨⟩, fun _ _ => ⟨n, by simp, hn⟩⟩
  · obtain rfl := he e rfl
    have hmiss := tamed_snoc ht (.missed req.lapsed req (.error .sqlite) (by rintro ⟨⟩))
    exact ⟨⟨rfl, by simp, hmiss⟩, by rintro ⟨⟩, by rintro _ ⟨⟩⟩

theorem rehydrateFromDisk_tame (ht : Tamed self actionId h) (ho : Overdue self actionId h req)
    (hlost : Lost h req) :
    (rehydrateFromDisk self).Follows answering (StaysTame self actionId q h) (q, h) := by
  obtain ⟨n, hn, hne⟩ := hlost
  simp only [rehydrateFromDisk, Proc.bind_eq]
  refine (Proc.follows_op_bind ..).mpr ⟨trivial, fun now _ => ?_, fun e _ => ?_⟩
  swap
  · exact ⟨rfl, List.prefix_append .., tamed_snoc ht (.idle _ trivial)⟩
  have ht₁ := tamed_snoc ht (.idle (o := .now) (.ok now) trivial)
  refine (Proc.follows_op_bind ..).mpr ⟨trivial, fun rows _ => ?_, fun e _ => ?_⟩
  swap
  · exact ⟨rfl, by simp, tamed_snoc ht₁ (.idle _ trivial)⟩
  have hh : h <+: h ++ [⟨.now, .ok now⟩] ++ [⟨.selectRows, .ok rows⟩] := by simp
  refine Proc.Follows.bind (M := StaysTame self actionId q h) ?_ (fun _ _ hm => hm) fun _ _ hm => hm
  refine Proc.follows_forEach (P := answering) (I := fun rs m => rs ⊆ rows ∧
    (m.1 = q ∧ h <+: m.2 ∧ Tamed self actionId m.2) ∧ ⟨.selectRows, .ok rows⟩ ∈ m.2) _ _
    ⟨List.Subset.refl _, ⟨rfl, hh, tamed_snoc ht₁ (.idle (o := .selectRows) _ trivial)⟩, by simp⟩
    ?_ fun m hm => hm.2.1
  rintro r rs ⟨q', h'⟩ ⟨hrs, ⟨rfl, hh', ht'⟩, hsel⟩
  simp only [rehydrateRow, Proc.bind_eq]
  cases hl : r.load now with
  | error e => exact ⟨rfl, hh', ht'⟩
  | ok m =>
    refine (Proc.follows_op_bind ..).mpr ⟨trivial, fun _ _ => ?_, fun e he => by cases he⟩
    have ht₂ := tamed_snoc ht' (.refreshes req m n rows r now (ho.mono hh') (hh'.subset hn) hne hsel
      (hrs List.mem_cons_self) hl)
    have hrest : rs ⊆ rows := fun _ hr => hrs (List.mem_cons_of_mem _ hr)
    split
    · refine ⟨trivial, ?_⟩
      rintro (e | u) -
      · exact ⟨rfl, hh'.trans (by simp), tamed_snoc ht₂ (.idle _ trivial)⟩
      · exact ⟨hrest, ⟨rfl, hh'.trans (by simp), tamed_snoc ht₂ (.idle _ trivial)⟩, by simp [hsel]⟩
    · exact ⟨hrest, ⟨rfl, hh'.trans (by simp), ht₂⟩, by simp [hsel]⟩

theorem expireIfDue_tame (ht : Tamed self actionId h) (ho : Overdue self actionId h req) :
    (expireIfDue self req now).Follows answering (StaysTame self actionId q h) (q, h) := by
  rw [expireIfDue]
  split
  · exact ⟨rfl, List.prefix_rfl, ht⟩
  simp only [persistRequest, Proc.bind_eq]
  refine Proc.Follows.bind (M := fun m r => StaysTame self actionId q h m r ∧
    (r = .ok false → Lost m.2 req)) ?_ ?_ fun _ _ hm => hm.1
  · refine (lapse_tame ht ho).tryCatch ?_ ?_
    · rintro m b ⟨hm, hb, -⟩
      exact ⟨hm, fun he => (hb he).elim⟩
    · rintro m e ⟨hm, -, he⟩
      cases e with
      | permission e => exact ⟨hm, fun _ => he e rfl⟩
      | _ => exact ⟨hm, by rintro ⟨⟩⟩
  · rintro ⟨q', h'⟩ persisted ⟨⟨rfl, hh, ht'⟩, hlost⟩
    split
    · refine (Proc.follows_op_bind ..).mpr ⟨trivial, fun _ _ => ?_, fun e he => by cases he⟩
      exact ⟨rfl, hh.trans (by simp), tamed_snoc ht' (.follows req (ho.mono hh))⟩
    next hp =>
      have hlost := hlost (by simpa using hp)
      refine (rehydrateFromDisk_tame ht' (ho.mono hh) hlost).bind ?_ fun _ _ hm =>
        ⟨hm.1, hh.trans hm.2.1, hm.2.2⟩
      rintro ⟨q'', h''⟩ _ ⟨rfl, hh', ht''⟩
      refine (Proc.follows_op_bind ..).mpr ⟨trivial, fun _ _ => ?_, fun e _ => ?_⟩
      · exact ⟨rfl, (hh.trans hh').trans (by simp), tamed_snoc ht'' (.idle _ trivial)⟩
      · exact ⟨rfl, (hh.trans hh').trans (by simp), tamed_snoc ht'' (.idle _ trivial)⟩

variable [NatCast τ] {E : Env τ}

theorem appendEvent_idle (key kind : String)
    (payload : List (Option String × AuditLedger.Value τ)) :
    (appendEvent E self key kind payload).Only Idle := by
  rw [appendEvent]
  split
  · trivial
  · exact (Proc.only_op _).mpr trivial

omit [LinearOrder τ] [NatCast τ] in
theorem demand_idle {verdict : Call τ Bool} {failed refused : String} (hv : verdict.Only Idle) :
    (demand verdict failed refused).Only Idle :=
  Proc.Only.bind (Proc.Only.tryCatch hv fun _ => trivial) fun _ => Proc.only_require ..

theorem demandProof_idle (decision : OperatorDecision) (operator : OperatorIdentity) :
    (demandProof E self req decision operator).Only Idle := by
  rw [demandProof]
  split
  · exact demand_idle ((Proc.only_op _).mpr trivial)
  · trivial

section Resolve

variable {notes : String} {decision : OperatorDecision} {operator : OperatorIdentity}
variable {answers : Dict String String}

theorem resolveRequest_tame (ht : Tamed self actionId h) :
    (resolveRequest E self actionId req decision operator notes answers).Follows answering
      (fun m r => ∀ e, r = .error e → Tamed self actionId m.2) (q, h) := by
  simp only [resolveRequest, persistRequest, Proc.bind_eq]
  refine (idle_tame (demandProof_idle decision operator) ht).bind ?_ fun _ _ hm _ _ => hm.2.2
  rintro ⟨q, h₁⟩ _ ⟨rfl, -, ht₁⟩
  refine (idle_tame (appendEvent_idle ..) ht₁).bind ?_ fun _ _ hm _ _ => hm.2.2
  rintro ⟨q, h₂⟩ _ ⟨rfl, -, ht₂⟩
  refine (swapRequest_tame ht₂).bind ?_ fun _ e hm _ _ => hm e rfl
  rintro ⟨q, h₃⟩ _ -
  refine (Proc.follows_op_bind ..).mpr ⟨trivial, fun _ _ => ?_, fun e he => by cases he⟩
  rintro e ⟨⟩

theorem resolveByOperator_tame :
    (resolveByOperator E self actionId decision operator notes answers).Follows answering
      (fun m r => ∀ e, r = .error e → Tamed self actionId m.2) (q, []) := by
  simp only [resolveByOperator, Proc.bind_eq]
  refine (Proc.follows_require_bind ..).mpr ⟨fun _ => ?_, fun _ _ _ => tamed_nil⟩
  refine (idle_tame (demand_idle ((Proc.only_op _).mpr trivial)) tamed_nil).bind ?_
    fun _ _ hm _ _ => hm.2.2
  rintro ⟨q, h₁⟩ _ ⟨rfl, -, ht₁⟩
  refine (Proc.follows_require_bind ..).mpr ⟨fun _ => ?_, fun _ _ _ => ht₁⟩
  have hidle : ∀ {h : History τ} (o : Op τ) r, Tamed self actionId h → Idle o →
      Tamed self actionId (h ++ [⟨o, r⟩]) := fun o r ht ho => tamed_snoc ht (.idle r ho)
  refine (Proc.follows_op_bind ..).mpr ⟨trivial, fun now _ => ?_, fun e _ _ _ =>
    hidle _ _ ht₁ trivial⟩
  have ht₂ := hidle .now (.ok now) ht₁ trivial
  refine (Proc.follows_op_bind ..).mpr ⟨trivial, fun found _ => ?_, fun e _ _ _ =>
    hidle _ _ ht₂ trivial⟩
  have ht₃ := hidle (.getRequest self actionId) (.ok found) ht₂ trivial
  cases found with
  | none => exact fun _ _ => ht₃
  | some req =>
    dsimp only
    split
    next hover =>
      have ho : Overdue self actionId (h₁ ++ [⟨.now, .ok now⟩] ++
          [⟨.getRequest self actionId, .ok (some req)⟩]) req :=
        ⟨by simp, hover.1, now, by simp, hover.2⟩
      exact (expireIfDue_tame ht₃ ho).bind (fun _ _ hm _ _ => hm.2.2) fun _ _ hm _ _ => hm.2.2
    split
    · exact fun _ _ => ht₃
    refine (Proc.follows_op_bind ..).mpr ⟨trivial, fun used _ => ?_, fun e _ _ _ =>
      hidle _ _ ht₃ trivial⟩
    have ht₄ := hidle (.nonceConsumed self req.nonce) (.ok used) ht₃ trivial
    refine (Proc.follows_require_bind ..).mpr ⟨fun _ => ?_, fun _ _ _ => ht₄⟩
    exact resolveRequest_tame ht₄

end Resolve

def TameWhenRaised : Request τ → (answering (τ := τ)).Mode → Except Error (Response τ) → Prop
  | .resolveByOperator self actionId _ _ _ _, m, .error _ => Tamed self actionId m.2
  | _, _, _ => True

theorem body_tame [Add τ] (q : Request τ) :
    (body E q).Follows answering (TameWhenRaised q) (q, []) := by
  have hfree : ∀ {α : Type} (p : Call τ α), p.Follows answering (fun _ _ => True) (q, []) := by
    intro α p
    exact ((Proc.only_of_forall (A := fun _ => True) (fun _ => trivial) p).follows
      (I := fun _ => True) trivial fun _ _ _ _ => ⟨trivial, fun _ _ => trivial⟩)
  cases q with
  | resolveByOperator self actionId decision operator notes answers =>
    refine resolveByOperator_tame.bind (fun _ _ _ => trivial) fun _ e hm => ?_
    exact hm e rfl
  | _ => exact (hfree _).mono fun _ _ _ => trivial

end Tame

/-! ## Runs -/

section Runs

variable {τ : Type} [LinearOrder τ] [NatCast τ] [Add τ] [FloatText τ] {E : Env τ}
variable {c c₁ c₂ : Calls E} {ls ls₁ : List (machine E).Label} {i : Nat} {w : World τ}
variable {s : State τ} {q : Request τ} {o : Op τ} {h : History τ} {a : String}
variable {births : List (Context τ)} {ms : List (Request τ × History τ)}
variable {req expected : OperatorApprovalRequest τ}

omit [LinearOrder τ] [NatCast τ] [Add τ] [FloatText τ] in
theorem matches_toRow (req : OperatorApprovalRequest τ) : req.toRow.matchesSnapshot req := by
  simp [Row.matchesSnapshot, OperatorApprovalRequest.toRow]

omit [NatCast τ] [Add τ] [FloatText τ] in
theorem count_matches (hs : Sound births s ms) (he : expected.context ∈ births) :
    s.rows.countP (·.matchesSnapshot expected) =
      if s.row expected.actionId = some expected.toRow then 1 else 0 := by
  have hnodup : s.rows.Nodup := List.Nodup.of_map _ hs.keys
  have hmem : expected.toRow ∈ s.rows ↔ s.row expected.actionId = some expected.toRow :=
    ⟨row_of_mem hs.keys, fun hrow => (row_some hrow).1⟩
  have hcount : s.rows.countP (·.matchesSnapshot expected) = s.rows.count expected.toRow := by
    refine List.countP_congr fun r hr => ?_
    rw [beq_iff_eq]
    exact ⟨hs.matched he hr, fun h => h ▸ matches_toRow expected⟩
  rw [hcount, hnodup.count]
  exact if_congr hmem rfl rfl

omit [Add τ] in
theorem updateRow_missed (hs : Sound births s ms) (he : expected.context ∈ births)
    (hr : (exec E (.updateRow req expected) w s).1 ≠ .ok (1 : Nat)) :
    (exec E (.updateRow req expected) w s).2 = s ∧
      ∀ n : Nat, (exec E (.updateRow req expected) w s).1 = .ok n →
        s.row expected.actionId ≠ some expected.toRow := by
  rw [exec] at hr ⊢
  split at hr
  next => exact ⟨rfl, by rintro n ⟨⟩⟩
  next =>
    have hne : s.row expected.actionId ≠ some expected.toRow := by
      intro hrow
      have hcount := count_matches hs he
      rw [if_pos hrow] at hcount
      exact hr (congrArg Except.ok hcount)
    refine ⟨?_, fun _ _ => hne⟩
    have hno : ∀ r ∈ s.rows, ¬ r.matchesSnapshot expected := by
      intro r hr' hm
      obtain rfl := hs.matched he hr' hm
      exact hne (row_of_mem hs.keys hr')
    have hmap : s.rows.map (fun r => if r.matchesSnapshot expected then r.assign req else r) =
        s.rows := by
      conv_rhs => rw [← List.map_id s.rows]
      exact List.map_congr_left fun r hr' => if_neg (hno r hr')
    simp only [succeed, State.updateRow, Prod.map, id, hmap]

omit [Add τ] in
theorem exec_idle (ho : Idle o) :
    (exec E o w s).2.rows = s.rows ∧ (exec E o w s).2.requests = s.requests := by
  rw [exec]
  split
  · exact ⟨rfl, rfl⟩
  · cases o <;> first | exact ho.elim | exact ⟨rfl, rfl⟩

omit [Add τ] in
theorem exec_answers : Answers o (exec E o w s).1 := by
  cases o with
  | putRequest self req => cases hw : w.fails <;> simp [Answers, exec, Op.failure, succeed, hw]
  | updateRow req expected =>
    intro e he
    rw [exec] at he
    split at he
    next e' _ hf => exact (Except.error.inj he).symm.trans (Option.some.inj hf).symm
    next => cases he
  | _ => trivial

/-- What a step of call `i` makes of its overdue snapshot `req`: the row lapses, or the memory of
`self` follows it; or, where the row was not the snapshot's any more, that memory takes over a row
of the table. -/
inductive Lapses (ls : List (machine E).Label) (c : Calls E) (i : Nat) (q : Request τ) (self : Nat)
    (req : OperatorApprovalRequest τ) (s s' : State τ) : Prop
  | row : s.row req.actionId = some req.toRow → s'.row req.actionId = some req.lapsed.toRow →
      (∀ b, b ≠ req.actionId → s'.row b = s.row b) → s'.requests = s.requests →
      Lapses ls c i q self req s s'
  | memory : s' = s.putRequest self req.lapsed → Lapses ls c i q self req s s'
  | refresh (m : OperatorApprovalRequest τ) :
      (∃ h n ls₁ w c₁ c₂, Machine.Performs initial ls c i q h
          ⟨.updateRow req.lapsed req, .ok n⟩ ls₁ w c₁ c₂ ∧
        c₁.state.row req.actionId ≠ some req.toRow) →
      (∃ h rows ls₁ w c₁ c₂, Machine.Performs initial ls c i q h ⟨.selectRows, .ok rows⟩
          ls₁ w c₁ c₂ ∧ ∃ r ∈ c₁.state.rows, ∃ now, r.load now = .ok m) →
      s' = s.putRequest self m → Lapses ls c i q self req s s'

theorem tame_call (hrun : Library.Run (Step E) (start E) ls c) {call : (machine E).Activity}
    (hc : c.calls[i]? = some call) {self : Nat} {decision : OperatorDecision}
    {operator : OperatorIdentity} {notes : String} {answers : Dict String String}
    (hq : call.request = .resolveByOperator self a decision operator notes answers) {e : Error}
    (hr : call.proc.result = some (.error e)) : Tamed self a call.hist := by
  have hfin := Machine.finished (P := answering) (Q := fun q => TameWhenRaised q) body_tame
    (fun _ _ _ _ _ _ => exec_answers) hrun (List.mem_of_getElem? hc) hr
  rw [Machine.Activity.mode, Protocol.after_ofHistory, hq] at hfin
  exact hfin

omit [LinearOrder τ] [NatCast τ] [Add τ] [FloatText τ] in
theorem row_other {req expected : OperatorApprovalRequest τ} {b : String}
    (hb : b ≠ expected.actionId) : (s.updateRow req expected).2.row b = s.row b := by
  rw [row_updateRow]
  cases hr : s.row b with
  | none => rfl
  | some r =>
    rw [Option.map_some, if_neg]
    intro hm
    simp only [Row.matchesSnapshot, Bool.and_eq_true, decide_eq_true_eq] at hm
    obtain ⟨⟨⟨⟨⟨⟨⟨⟨⟨⟨⟨⟨⟨⟨⟨hid, -⟩, -⟩, -⟩, -⟩, -⟩, -⟩, -⟩, -⟩, -⟩, -⟩, -⟩, -⟩, -⟩, -⟩, -⟩ := hm
    exact hb ((row_some hr).2.symm.trans hid)

omit [Add τ] in
theorem updateRow_ok {n : Nat} (hn : (exec E (.updateRow req expected) w s).1 = .ok n) :
    (exec E (.updateRow req expected) w s).2 = (s.updateRow req expected).2 := by
  rw [exec] at hn ⊢
  split at hn
  · cases hn
  · rfl

theorem performs_of_mem (hrun : Library.Run (Step E) (start E) ls c)
    {call : (machine E).Activity} (hc : c.calls[i]? = some call) {ev ev' : Event (sig τ) Error}
    {h' : History τ} (hh : call.hist = h ++ ev :: h') (he : ev' ∈ h) :
    ∃ h₁ ls₁ w c₁ c₂, Machine.Performs initial ls c i call.request h₁ ev' ls₁ w c₁ c₂ := by
  obtain ⟨h₁, h₂, rfl⟩ := List.append_of_mem he
  rw [List.append_assoc, List.cons_append] at hh
  exact ⟨h₁, Machine.performs_of_hist hrun hc hh⟩

theorem lost_of_performs {n : Nat} (hn : n ≠ 1)
    (hper : Machine.Performs (M := machine E) initial ls c i q h
      ⟨.updateRow req.lapsed req, .ok n⟩ ls₁ w c₁ c₂) :
    c₁.state.row req.actionId ≠ some req.toRow := by
  obtain ⟨k, hact⟩ := hper.acts
  obtain ⟨births, hs⟩ := sound_run hper.before
  have ha := acts_allowed hper.before hact
  have he := (hs.calls _ (List.mem_of_getElem? (records_call hact.call))).seen _ ha.1
  have hans : (exec E (.updateRow req.lapsed req) w c₁.state).1 = .ok n := hper.answer
  refine (updateRow_missed hs he ?_).2 n hans
  rw [hans]
  exact fun hone => hn (Except.ok.inj hone)

theorem rows_of_performs {rows : List (Row τ)}
    (hper : Machine.Performs (M := machine E) initial ls c i q h ⟨.selectRows, .ok rows⟩
      ls₁ w c₁ c₂) : c₁.state.rows = rows := by
  have hans : (exec E .selectRows w c₁.state).1 = .ok rows := hper.answer
  rw [exec] at hans
  split at hans
  · cases hans
  · exact Except.ok.inj hans

omit [Add τ] in
theorem exec_putRequest (self : Nat) :
    (exec E (.putRequest self req) w s).2 = s.putRequest self req := by
  cases hw : w.fails <;> simp [exec, Op.failure, succeed, hw]

theorem raised_steps (hrun : Library.Run (Step E) (start E) ls c) {call : (machine E).Activity}
    (hc : c.calls[i]? = some call) {self : Nat} {decision : OperatorDecision}
    {operator : OperatorIdentity} {notes : String} {answers : Dict String String}
    (hq : call.request = .resolveByOperator self a decision operator notes answers) {e : Error}
    (hr : call.proc.result = some (.error e)) {ev : Event (sig τ) Error}
    (hper : Machine.Performs initial ls c i call.request h ev ls₁ w c₁ c₂) :
    (c₂.state.rows = c₁.state.rows ∧ c₂.state.requests = c₁.state.requests) ∨
      ∃ req, Overdue self a h req ∧
        Lapses ls c i call.request self req c₁.state c₂.state := by
  obtain ⟨h', hh⟩ := hper.recorded hc
  have htame := tame_call hrun hc hq hr h ev h' hh
  obtain ⟨k, hact⟩ := hper.acts
  obtain ⟨births, hs⟩ := sound_run hper.before
  have hi := records_call hact.call
  have ha := acts_allowed hper.before hact
  have hans := hper.answer
  rw [hact.result]
  cases htame with
  | idle r ho => exact .inl (exec_idle ho)
  | missed req expected r hne =>
    have he := (hs.calls _ (List.mem_of_getElem? hi)).seen _ ha.1
    have hne' : (exec E (.updateRow req expected) w c₁.state).1 ≠ .ok (1 : Nat) :=
      fun hone => hne (hans.symm.trans hone)
    have hsame := (updateRow_missed hs he hne').1
    exact .inl ⟨congrArg State.rows hsame, congrArg State.requests hsame⟩
  | lapses req ho =>
    have he := (hs.calls _ (List.mem_of_getElem? hi)).seen _ ha.1
    obtain ⟨hrow, hrow'⟩ := updateRow_one hs he ha.2.1 hans
    have hstate := updateRow_ok hans
    refine .inr ⟨req, ho, .row hrow hrow' (fun b hb => ?_)
      ((congrArg State.requests hstate).trans rfl)⟩
    exact (congrArg (State.row · b) hstate).trans (row_other hb)
  | follows req ho => exact .inr ⟨req, ho, .memory (exec_putRequest self)⟩
  | refreshes req m n rows r now ho hupd hne hsel hrmem hload =>
    obtain ⟨h₁, ls₂, w₂, d₁, d₂, hper₁⟩ := performs_of_mem hrun hc hh hupd
    obtain ⟨h₂, ls₃, w₃, d₃, d₄, hper₂⟩ := performs_of_mem hrun hc hh hsel
    refine .inr ⟨req, ho, .refresh m ⟨h₁, n, ls₂, w₂, d₁, d₂, hper₁, lost_of_performs hne hper₁⟩
      ⟨h₂, rows, ls₃, w₃, d₃, d₄, hper₂, r, ?_, now, hload⟩ (exec_putRequest self)⟩
    rw [rows_of_performs hper₂]
    exact hrmem

/-- Table and ledger stay consistent: of a resolution that raises, no step changes the table or a
memory, but that an overdue request lapses or is read anew; and every decision that the table
holds has its event in the ledger that all boundaries share. -/
theorem resolutions_consistent {L : Nat} (hL : ∀ self, (E.conf self).ledger = some L)
    (hrun : Library.Run (Step E) (start E) ls c) :
    (∀ (i : Nat) call self a decision operator notes answers e, c.calls[i]? = some call →
      call.request = .resolveByOperator self a decision operator notes answers →
      call.proc.result = some (.error e) →
      ∀ h ev ls₁ w c₁ c₂, Machine.Performs initial ls c i call.request h ev ls₁ w c₁ c₂ →
        (c₂.state.rows = c₁.state.rows ∧ c₂.state.requests = c₁.state.requests) ∨
          ∃ req, Overdue self a h req ∧
            Lapses ls c i call.request self req c₁.state c₂.state) ∧
    ∀ r ∈ c.state.rows, r.state.decided = true → OnRecord τ (c.state.ledgers L) r := by
  constructor
  · intro i call self a decision operator notes answers e hc hq hr h ev ls₁ w c₁ c₂ hper
    exact raised_steps hrun hc hq hr hper
  · intro r hr hst
    obtain ⟨births, hs⟩ := sound_run hrun
    exact decided_on_record hrun hL (row_of_mem hs.keys hr) hst

end Runs

/-! ## A resolution that comes too late -/

section Late

def ledgerEnv : Env Int :=
  { raceEnv with conf := fun self => { raceEnv.conf self with ledger := some 0 } }

def ledgerStart (q : Request Int) : (machine ledgerEnv).Label := .start q

def ledgerActs (i n : Nat) (time : Int) : List (machine ledgerEnv).Label :=
  List.replicate n (.act i (raceWorld time))

def overtaken : List (machine ledgerEnv).Label :=
  ledgerStart (.createRequest 0 "s" "t" ["ls"] "/w" [] none) :: ledgerActs 0 7 0 ++
  ledgerStart (.rehydrateFromDisk 1) :: ledgerActs 1 3 1 ++
  ledgerStart (.resolveByOperator 1 "act_digest" .deny raceOperator "" []) :: ledgerActs 2 7 2

/-- The first boundary has not heard of it when it resolves the request past its deadline. -/
def late : List (machine ledgerEnv).Label :=
  ledgerStart (.resolveByOperator 0 "act_digest" .allowOnce raceOperator "" []) ::
    ledgerActs 3 8 1000

def remembered (c : Calls ledgerEnv) : Option ApprovalState :=
  ((c.state.requests 0).get? "act_digest").map (·.state)

/-- A resolution that raises turns `BLOCKED` to `DENIED` in memory. -/
theorem late_refreshes : ∃ c₁ c₂, Library.Run (Step ledgerEnv) (start ledgerEnv) overtaken c₁ ∧
    Library.Run (Step ledgerEnv) c₁ late c₂ ∧
    c₂.calls[3]?.bind (·.proc.result) =
      some (.error (.permission "Approval request has expired")) ∧
    remembered c₁ = some .blocked ∧ remembered c₂ = some .denied := by
  have h₁ : (Library.exec (Step ledgerEnv) (start ledgerEnv) overtaken).any (fun c =>
      remembered c = some .blocked) = true := by
    decide +kernel
  have h₂ : (Library.exec (Step ledgerEnv) (start ledgerEnv) (overtaken ++ late)).any (fun c =>
      c.calls[3]?.bind (·.proc.result) =
        some (.error (.permission "Approval request has expired")) ∧
      remembered c = some .denied) = true := by
    decide +kernel
  obtain ⟨c₁, hrun₁, hc₁⟩ := run_of_any h₁
  obtain ⟨c₂, hrun₂, hc₂⟩ := run_of_any h₂
  obtain ⟨c, hc, hlate⟩ := hrun₂.split
  obtain rfl := hrun₁.unique hc
  obtain ⟨hres, hden⟩ := of_decide_eq_true hc₂
  exact ⟨c₁, c₂, hrun₁, hlate, hres, of_decide_eq_true hc₁, hden⟩

theorem resolutions_consistent_late : ∃ (c : Calls ledgerEnv) (call : _) (e : Error) (r : Row Int),
    c.calls[3]? = some call ∧ call.proc.result = some (.error e) ∧
    (∀ h ev ls₁ w c₁ c₂,
      Machine.Performs initial (overtaken ++ late) c 3 call.request h ev ls₁ w c₁ c₂ →
        (c₂.state.rows = c₁.state.rows ∧ c₂.state.requests = c₁.state.requests) ∨
          ∃ req, Overdue 0 "act_digest" h req ∧
            Lapses (overtaken ++ late) c 3 call.request 0 req c₁.state c₂.state) ∧
    r.state = .denied ∧ OnRecord Int (c.state.ledgers 0) r := by
  have h : (Library.exec (Step ledgerEnv) (start ledgerEnv) (overtaken ++ late)).any (fun c =>
      c.calls[3]?.map (fun call => (call.request, call.proc.result)) =
        some (.resolveByOperator 0 "act_digest" .allowOnce raceOperator "" [],
          some (.error (.permission "Approval request has expired"))) ∧
      ∃ r ∈ c.state.rows, r.state = .denied) = true := by
    decide +kernel
  obtain ⟨c, hrun, hc⟩ := run_of_any h
  obtain ⟨hcall, r, hr, hden⟩ := of_decide_eq_true hc
  obtain ⟨call, hcall, hcq⟩ := Option.map_eq_some_iff.mp hcall
  obtain ⟨hq, hres⟩ := Prod.mk.inj hcq
  obtain ⟨hsteps, hrows⟩ := resolutions_consistent (L := 0) (fun _ => rfl) hrun
  exact ⟨c, call, _, r, hcall, hres, hsteps 3 call _ _ _ _ _ _ _ hcall hq hres, hden,
    hrows r hr (by rw [hden]; rfl)⟩

end Late

end SubagentBridge.OperatorBoundary
