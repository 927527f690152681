import SubagentBridge.Approval.OperatorBoundaryLaws

/-! What every interleaving of calls on the boundary instances keeps: a nonce names one
request, rows move along the permitted transitions, and an approval is consumed once. -/

namespace SubagentBridge.OperatorBoundary

open Library

section Rows

variable {τ : Type}

def State.row (s : State τ) (actionId : String) : Option (Row τ) :=
  s.rows.find? (·.actionId = actionId)

variable {s : State τ} {r : Row τ} {a : String}

theorem row_some (h : s.row a = some r) : r ∈ s.rows ∧ r.actionId = a :=
  ⟨List.mem_of_find?_eq_some h, by simpa using List.find?_some h⟩

theorem row_of_mem (hk : (s.rows.map (·.actionId)).Nodup) (hr : r ∈ s.rows) :
    s.row r.actionId = some r := by
  cases h : s.row r.actionId with
  | none => simpa using List.find?_eq_none.mp h r hr
  | some r' =>
    obtain ⟨hr', ha⟩ := row_some h
    rw [List.inj_on_of_nodup_map hk hr' hr ha]

theorem row_map {f : Row τ → Row τ} (hf : ∀ r, (f r).actionId = r.actionId) (a : String) :
    State.row { s with rows := s.rows.map f } a = (s.row a).map f := by
  have hcomp : ((fun r : Row τ => decide (r.actionId = a)) ∘ f) =
      fun r : Row τ => decide (r.actionId = a) := by
    funext r
    simp [hf]
  rw [State.row, List.find?_map, hcomp, State.row]

end Rows

section Sound

variable {τ : Type} [LinearOrder τ]

/-- What holds of the history of a call, when `births` are the requests made so far. -/
structure CallSound (births : List (Context τ)) (minted : List String) (h : History τ) :
    Prop where
  seen : ∀ req, Seen h req → req.context ∈ births
  got : ∀ self a req, ⟨.getRequest self a, .ok (some req)⟩ ∈ h → req.actionId = a
  drawn : ∀ n, Drawn h n → n ∈ minted
  born : ∀ n, Drawn h n → n ∈ births.map (·.nonce) → Born h n

/-- Every row and every snapshot is a version of a request that was made, and these
differ in their nonces. -/
structure Sound (births : List (Context τ)) (s : State τ) (ms : List (Request τ × History τ)) :
    Prop where
  nonces : (births.map (·.nonce)).Nodup
  minted : ∀ ctx ∈ births, ctx.nonce ∈ s.minted
  rows : ∀ r ∈ s.rows, ∃ m : OperatorApprovalRequest τ, r = m.toRow ∧ m.context ∈ births
  keys : (s.rows.map (·.actionId)).Nodup
  memory : ∀ self, ∀ p ∈ s.requests self, p.2.context ∈ births ∧ p.2.actionId = p.1
  calls : ∀ m ∈ ms, CallSound births s.minted m.2
  own : ∀ (i j : Nat) m m' n, ms[i]? = some m → ms[j]? = some m' → Drawn m.2 n → Drawn m'.2 n →
    i = j

variable {births : List (Context τ)} {s s' : State τ} {ms : List (Request τ × History τ)}
variable {q : Request τ} {h : History τ} {i : Nat} {o : Op τ} {r : Except Error o.Ret}

theorem sound_initial : Sound [] (initial : State τ) [] where
  nonces := by simp
  minted := by simp
  rows := by simp [initial]
  keys := by simp [initial]
  memory := by simp [initial]
  calls := by simp
  own := by simp

theorem callSound_nil : CallSound births s.minted [] where
  seen := by simp [Seen]
  got := by simp
  drawn := by simp [Drawn]
  born := by simp [Drawn]

theorem seen_snoc {req : OperatorApprovalRequest τ} :
    Seen (h ++ [⟨o, r⟩]) req ↔ Seen h req ∨ Shows o r req := by
  simp [Seen, or_and_right, exists_or]

theorem CallSound.snoc {minted : List String} (hc : CallSound births minted h)
    (hshow : ∀ req, Shows o r req → req.context ∈ births)
    (hgot : ∀ self a req, (⟨o, r⟩ : Event (sig τ) Error) = ⟨.getRequest self a, .ok (some req)⟩ →
      req.actionId = a)
    (htok : ∀ n, (⟨o, r⟩ : Event (sig τ) Error) ≠ ⟨.tokenHex, .ok n⟩) :
    CallSound births minted (h ++ [⟨o, r⟩]) := by
  have hdrawn : ∀ n, Drawn (h ++ [⟨o, r⟩]) n → Drawn h n := by
    intro n hn
    rcases List.mem_append.mp hn with hn | hn
    · exact hn
    · exact absurd (List.mem_singleton.mp hn).symm (htok n)
  refine ⟨?_, ?_, fun n hn => hc.drawn n (hdrawn n hn), fun n hn hb => ?_⟩
  · intro req hreq
    exact (seen_snoc.mp hreq).elim (hc.seen req) (hshow req)
  · intro self a req hm
    rcases List.mem_append.mp hm with hm | hm
    · exact hc.got self a req hm
    · exact hgot self a req (List.mem_singleton.mp hm).symm
  · obtain ⟨self, req, hm, hr⟩ := hc.born n (hdrawn n hn) hb
    exact ⟨self, req, List.mem_append_left _ hm, hr⟩

omit [LinearOrder τ] in
theorem drawn_set (hi : ms[i]? = some (q, h)) {j : Nat} {m : Request τ × History τ} {n : String}
    {e : Event (sig τ) Error} (hm : (ms.set i (q, h ++ [e]))[j]? = some m) (hn : Drawn m.2 n) :
    (∃ m', ms[j]? = some m' ∧ Drawn m'.2 n) ∨ j = i ∧ e = ⟨.tokenHex, .ok n⟩ := by
  by_cases hij : i = j
  · subst hij
    rw [List.getElem?_set_self (List.getElem?_eq_some_iff.mp hi).1] at hm
    obtain rfl := Option.some.inj hm
    rcases List.mem_append.mp hn with hn | hn
    · exact .inl ⟨_, hi, hn⟩
    · exact .inr ⟨rfl, (List.mem_singleton.mp hn).symm⟩
  · rw [List.getElem?_set_ne hij] at hm
    exact .inl ⟨m, hm, hn⟩

theorem Sound.own_set (hs : Sound births s ms) (hi : ms[i]? = some (q, h))
    {e : Event (sig τ) Error} (he : ∀ n, e = ⟨.tokenHex, .ok n⟩ → n ∉ s.minted) (j k : Nat)
    (m m' : Request τ × History τ) (n : String) (hj : (ms.set i (q, h ++ [e]))[j]? = some m)
    (hk : (ms.set i (q, h ++ [e]))[k]? = some m') (hn : Drawn m.2 n) (hn' : Drawn m'.2 n) :
    j = k := by
  rcases drawn_set hi hj hn with ⟨m₁, hj, hn⟩ | ⟨hji, hn⟩ <;>
    rcases drawn_set hi hk hn' with ⟨m₂, hk, hn'⟩ | ⟨hki, hn'⟩
  · exact hs.own j k m₁ m₂ n hj hk hn hn'
  · exact absurd ((hs.calls _ (List.mem_of_getElem? hj)).drawn n hn) (he n hn')
  · exact absurd ((hs.calls _ (List.mem_of_getElem? hk)).drawn n hn') (he n hn)
  · exact hji.trans hki.symm

theorem Sound.start (hs : Sound births s ms) (q : Request τ) :
    Sound births s (ms ++ [(q, [])]) where
  nonces := hs.nonces
  minted := hs.minted
  rows := hs.rows
  keys := hs.keys
  memory := hs.memory
  calls m hm := by
    rcases List.mem_append.mp hm with hm | hm
    · exact hs.calls m hm
    · rw [List.mem_singleton.mp hm]
      exact callSound_nil
  own := by
    have hold : ∀ {j : Nat} {m n}, (ms ++ [(q, [])])[j]? = some m → Drawn m.2 n →
        ms[j]? = some m := by
      intro j m n hm hn
      rw [List.getElem?_append] at hm
      split at hm
      next => exact hm
      next =>
        rw [List.mem_singleton.mp (List.mem_of_getElem? hm)] at hn
        cases hn
    exact fun i j m m' n hi hj hn hn' => hs.own i j m m' n (hold hi hn) (hold hj hn') hn hn'

theorem Sound.call (hs : Sound births s ms) (hi : ms[i]? = some (q, h))
    (hrows : ∀ r ∈ s'.rows, ∃ m : OperatorApprovalRequest τ, r = m.toRow ∧ m.context ∈ births)
    (hkeys : (s'.rows.map (·.actionId)).Nodup)
    (hmem : ∀ self, ∀ p ∈ s'.requests self, p.2.context ∈ births ∧ p.2.actionId = p.1)
    (hmint : s'.minted = s.minted)
    (hshow : ∀ req, Shows o r req → req.context ∈ births)
    (hgot : ∀ self a req, (⟨o, r⟩ : Event (sig τ) Error) = ⟨.getRequest self a, .ok (some req)⟩ →
      req.actionId = a)
    (htok : ∀ n, (⟨o, r⟩ : Event (sig τ) Error) ≠ ⟨.tokenHex, .ok n⟩) :
    Sound births s' (ms.set i (q, h ++ [⟨o, r⟩])) where
  nonces := hs.nonces
  minted := hmint ▸ hs.minted
  rows := hrows
  keys := hkeys
  memory := hmem
  calls m hm := by
    rw [hmint]
    rcases List.mem_or_eq_of_mem_set hm with hm | rfl
    · exact hs.calls m hm
    · exact (hs.calls _ (List.mem_of_getElem? hi)).snoc hshow hgot htok
  own := hs.own_set hi fun n hn => absurd hn (htok n)

theorem Sound.quiet (hs : Sound births s ms) (hi : ms[i]? = some (q, h))
    (hrows : s'.rows = s.rows) (hmem : s'.requests = s.requests) (hmint : s'.minted = s.minted)
    (hshow : ∀ req, Shows o r req → req.context ∈ births)
    (hgot : ∀ self a req, (⟨o, r⟩ : Event (sig τ) Error) = ⟨.getRequest self a, .ok (some req)⟩ →
      req.actionId = a)
    (htok : ∀ n, (⟨o, r⟩ : Event (sig τ) Error) ≠ ⟨.tokenHex, .ok n⟩) :
    Sound births s' (ms.set i (q, h ++ [⟨o, r⟩])) :=
  hs.call hi (hrows ▸ hs.rows) (hrows ▸ hs.keys) (hmem ▸ hs.memory) hmint hshow hgot htok

theorem Sound.token (hs : Sound births s ms) (hi : ms[i]? = some (q, h)) {n : String}
    (hn : n ∉ s.minted) :
    Sound births { s with minted := n :: s.minted }
      (ms.set i (q, h ++ [⟨.tokenHex, .ok n⟩])) where
  nonces := hs.nonces
  minted ctx hctx := List.mem_cons_of_mem _ (hs.minted ctx hctx)
  rows := hs.rows
  keys := hs.keys
  memory := hs.memory
  calls m hm := by
    have hmono : ∀ m ∈ ms, CallSound births (n :: s.minted) m.2 := fun m hm =>
      ⟨(hs.calls m hm).seen, (hs.calls m hm).got,
        fun n' hn' => List.mem_cons_of_mem _ ((hs.calls m hm).drawn n' hn'), (hs.calls m hm).born⟩
    rcases List.mem_or_eq_of_mem_set hm with hm | rfl
    · exact hmono m hm
    · have hc := hmono _ (List.mem_of_getElem? hi)
      refine ⟨fun req hreq => ?_, fun self a req hreq => ?_, fun n' hn' => ?_, fun n' hn' hb => ?_⟩
      · exact (seen_snoc.mp hreq).elim (hc.seen req) fun hreq => hreq.elim
      · refine hc.got self a req ?_
        simpa using hreq
      · rcases List.mem_append.mp hn' with hn' | hn'
        · exact hc.drawn n' hn'
        · cases List.mem_singleton.mp hn'
          exact List.mem_cons_self
      · rcases List.mem_append.mp hn' with hn' | hn'
        · obtain ⟨self, req, hm, hr⟩ := hc.born n' hn' hb
          exact ⟨self, req, List.mem_append_left _ hm, hr⟩
        · cases List.mem_singleton.mp hn'
          obtain ⟨ctx, hctx, rfl⟩ := List.mem_map.mp hb
          exact absurd (hs.minted ctx hctx) hn
  own := hs.own_set hi fun n' hn' => by cases hn'; exact hn

omit [LinearOrder τ] in
theorem mem_putRequest {b self : Nat} {req : OperatorApprovalRequest τ}
    {p : String × OperatorApprovalRequest τ} (hp : p ∈ (s.putRequest self req).requests b) :
    p ∈ s.requests b ∨ p = (req.actionId, req) := by
  simp only [State.putRequest, Function.update_apply] at hp
  split at hp
  next hb => exact hb ▸ Dict.mem_set hp
  next => exact .inl hp

theorem Sound.birth (hs : Sound births s ms) (hi : ms[i]? = some (q, h)) {self : Nat}
    {req : OperatorApprovalRequest τ} (hd : Drawn h req.nonce) (hb : ¬ Born h req.nonce) :
    Sound (births ++ [req.context]) (s.putRequest self req)
      (ms.set i (q, h ++ [⟨.putRequest self req, .ok ()⟩])) := by
  have hfresh : req.nonce ∉ births.map (·.nonce) := fun hm =>
    hb ((hs.calls _ (List.mem_of_getElem? hi)).born _ hd hm)
  refine ⟨?_, ?_, ?_, hs.keys, ?_, ?_, hs.own_set hi fun n hn => by cases hn⟩
  · rw [List.map_append, List.nodup_append]
    refine ⟨hs.nonces, by simp, ?_⟩
    intro x hx y hy hxy
    rw [List.map_singleton, List.mem_singleton] at hy
    have hx' : x = req.nonce := hxy.trans hy
    exact hfresh (hx' ▸ hx)
  · intro ctx hctx
    rcases List.mem_append.mp hctx with hctx | hctx
    · exact hs.minted ctx hctx
    · rw [List.mem_singleton.mp hctx]
      exact (hs.calls _ (List.mem_of_getElem? hi)).drawn _ hd
  · intro r hr
    obtain ⟨m, rfl, hm⟩ := hs.rows r hr
    exact ⟨m, rfl, List.mem_append_left _ hm⟩
  · intro b p hp
    rcases mem_putRequest hp with hp | rfl
    · exact ⟨List.mem_append_left _ (hs.memory b p hp).1, (hs.memory b p hp).2⟩
    · exact ⟨by simp, rfl⟩
  · intro m hm
    obtain ⟨j, hj⟩ := List.mem_iff_getElem?.mp hm
    by_cases hij : i = j
    · subst hij
      rw [List.getElem?_set_self (List.getElem?_eq_some_iff.mp hi).1] at hj
      obtain rfl := Option.some.inj hj
      have hc := hs.calls _ (List.mem_of_getElem? hi)
      refine ⟨fun req' hreq => ?_, fun b a req' hreq => ?_, fun n hn => ?_, fun n hn hmem => ?_⟩
      · rcases seen_snoc.mp hreq with hreq | hreq
        · exact List.mem_append_left _ (hc.seen req' hreq)
        · exact List.mem_append_right _ (by rw [show req = req' from hreq]; simp)
      · exact hc.got b a req' (by simpa using hreq)
      · exact hc.drawn n (by simpa [Drawn] using hn)
      · rw [List.map_append, List.mem_append] at hmem
        rcases hmem with hmem | hmem
        · obtain ⟨b, req', hm, hr⟩ := hc.born n (by simpa [Drawn] using hn) hmem
          exact ⟨b, req', List.mem_append_left _ hm, hr⟩
        · rw [List.map_singleton, List.mem_singleton] at hmem
          exact ⟨self, req, by simp, hmem.symm⟩
    · rw [List.getElem?_set_ne hij] at hj
      have hc := hs.calls _ (List.mem_of_getElem? hj)
      refine ⟨fun req' hreq => List.mem_append_left _ (hc.seen req' hreq), hc.got, hc.drawn, ?_⟩
      intro n hn hmem
      rw [List.map_append, List.mem_append] at hmem
      rcases hmem with hmem | hmem
      · exact hc.born n hn hmem
      · rw [List.map_singleton, List.mem_singleton] at hmem
        subst hmem
        exact absurd (hs.own i j _ _ _ hi hj hd hn) hij

theorem Sound.matched (hs : Sound births s ms) {expected : OperatorApprovalRequest τ}
    (he : expected.context ∈ births) {r : Row τ} (hr : r ∈ s.rows)
    (hm : r.matchesSnapshot expected) : r = expected.toRow := by
  obtain ⟨m, rfl, hctx⟩ := hs.rows r hr
  exact eq_of_matches hm (List.inj_on_of_nodup_map hs.nonces hctx he (nonce_of_matches hm))

theorem Sound.mapRows (hs : Sound births s ms) (hi : ms[i]? = some (q, h)) {f : Row τ → Row τ}
    (hf : ∀ r ∈ s.rows, ∃ m : OperatorApprovalRequest τ, f r = m.toRow ∧ m.context = r.context)
    (hshow : ∀ req, ¬ Shows o r req)
    (hgot : ∀ self a req, (⟨o, r⟩ : Event (sig τ) Error) ≠ ⟨.getRequest self a, .ok (some req)⟩)
    (htok : ∀ n, (⟨o, r⟩ : Event (sig τ) Error) ≠ ⟨.tokenHex, .ok n⟩) :
    Sound births { s with rows := s.rows.map f } (ms.set i (q, h ++ [⟨o, r⟩])) := by
  refine hs.call hi ?_ ?_ hs.memory rfl (fun req hreq => absurd hreq (hshow req))
    (fun self a req he => absurd he (hgot self a req)) htok
  · intro r hr
    obtain ⟨r₀, hr₀, rfl⟩ := List.mem_map.mp hr
    obtain ⟨m, hm, hctx⟩ := hf r₀ hr₀
    obtain ⟨m₀, rfl, hctx₀⟩ := hs.rows r₀ hr₀
    exact ⟨m, hm, by rw [hctx]; exact hctx₀⟩
  · have hkey : (s.rows.map f).map (·.actionId) = s.rows.map (·.actionId) := by
      rw [List.map_map]
      refine List.map_congr_left fun r hr => ?_
      obtain ⟨m, hm, hctx⟩ := hf r hr
      rw [Function.comp, hm]
      exact congrArg Context.actionId hctx
    exact hkey ▸ hs.keys

theorem Sound.updateRow (hs : Sound births s ms) (hi : ms[i]? = some (q, h))
    {req expected : OperatorApprovalRequest τ} (he : expected.context ∈ births)
    (hctx : req.context = expected.context) {r : Except Error Nat} :
    Sound births (s.updateRow req expected).2
      (ms.set i (q, h ++ [⟨.updateRow req expected, r⟩])) := by
  refine hs.mapRows hi (fun r hr => ?_) (fun req' hreq => ?_) ?_ ?_
  · split
    next hm =>
      rw [hs.matched he hr hm, assign_toRow hctx]
      exact ⟨req, rfl, hctx⟩
    next =>
      obtain ⟨m, rfl, -⟩ := hs.rows r hr
      exact ⟨m, rfl, rfl⟩
  · cases r <;> exact hreq.elim
  · rintro _ _ _ ⟨⟩
  · rintro _ ⟨⟩

theorem Sound.consumeRow (hs : Sound births s ms) (hi : ms[i]? = some (q, h))
    {a n : String} {bound : Bool} {now : τ} {r : Except Error Nat} :
    Sound births (s.consumeRow a n bound now).2
      (ms.set i (q, h ++ [⟨.consumeRow a n bound now, r⟩])) := by
  refine hs.mapRows hi (fun r hr => ?_) (fun req' hreq => ?_) ?_ ?_
  · obtain ⟨m, rfl, -⟩ := hs.rows r hr
    split
    · exact ⟨{ m with state := .consumed }, rfl, rfl⟩
    · exact ⟨m, rfl, rfl⟩
  · cases r <;> exact hreq.elim
  · rintro _ _ _ ⟨⟩
  · rintro _ ⟨⟩

theorem Sound.insertRow (hs : Sound births s ms) (hi : ms[i]? = some (q, h))
    {req : OperatorApprovalRequest τ} (hreq : req.context ∈ births) :
    Sound births (s.insertRow req).2
      (ms.set i (q, h ++ [⟨.insertRow req, (s.insertRow req).1⟩])) := by
  rw [State.insertRow]
  split
  next => exact hs.quiet hi rfl rfl rfl (fun _ hr => hr.elim) (by rintro _ _ _ ⟨⟩) (by rintro _ ⟨⟩)
  next hnew =>
    refine hs.call hi ?_ ?_ hs.memory rfl (fun _ hr => hr.elim) (by rintro _ _ _ ⟨⟩)
      (by rintro _ ⟨⟩)
    · intro r hr
      rcases List.mem_append.mp hr with hr | hr
      · exact hs.rows r hr
      · exact ⟨req, List.mem_singleton.mp hr, hreq⟩
    · rw [List.map_append, List.nodup_append]
      refine ⟨hs.keys, by simp, ?_⟩
      intro x hx y hy hxy
      obtain ⟨r, hr, rfl⟩ := List.mem_map.mp hx
      rw [List.map_singleton, List.mem_singleton] at hy
      exact hnew ⟨r, hr, .inl (hxy.trans hy)⟩

theorem Sound.putRequest (hs : Sound births s ms) (hi : ms[i]? = some (q, h)) {self : Nat}
    {req : OperatorApprovalRequest τ} (hreq : req.context ∈ births) :
    Sound births (s.putRequest self req) (ms.set i (q, h ++ [⟨.putRequest self req, .ok ()⟩])) := by
  refine hs.call hi hs.rows hs.keys ?_ rfl ?_ (by rintro _ _ _ ⟨⟩) (by rintro _ ⟨⟩)
  · intro b p hp
    rcases mem_putRequest hp with hp | rfl
    · exact hs.memory b p hp
    · exact ⟨hreq, rfl⟩
  · intro req' hr
    rw [← show req = req' from hr]
    exact hreq

theorem Sound.silent (hs : Sound births s ms) (hi : ms[i]? = some (q, h))
    (hrows : s'.rows = s.rows) (hmem : s'.requests = s.requests) (hmint : s'.minted = s.minted)
    (hshow : ∀ req, ¬ Shows o r req)
    (htok : ∀ n, (⟨o, r⟩ : Event (sig τ) Error) ≠ ⟨.tokenHex, .ok n⟩) :
    Sound births s' (ms.set i (q, h ++ [⟨o, r⟩])) := by
  refine hs.quiet hi hrows hmem hmint (fun req hreq => absurd hreq (hshow req)) ?_ htok
  rintro self a req ⟨⟩
  exact absurd rfl (hshow req)

theorem not_shows_error {e : Error} {req : OperatorApprovalRequest τ} :
    ¬ Shows o (.error e) req := by
  cases o <;> exact id

theorem sound_exec [NatCast τ] [FloatText τ] {E : Env τ} (hs : Sound births s ms)
    (hi : ms[i]? = some (q, h)) (ha : Allowed E q h o) {w : World τ} (hp : possible o w s = true) :
    ∃ births', Sound births' (exec E o w s).2 (ms.set i (q, h ++ [⟨o, (exec E o w s).1⟩])) := by
  have hc := hs.calls _ (List.mem_of_getElem? hi)
  rw [exec]
  split
  next e _ _ => exact ⟨births, hs.silent hi rfl rfl rfl (fun _ => not_shows_error) (by rintro _ ⟨⟩)⟩
  next =>
    cases o with
    | now | resolvePath _ | verifyOperator _ _ | verifyDecision _ _ _ _ | nonceConsumed _ _
    | addConsumed _ _ | appendEvent _ _ _ _ =>
      exact ⟨births, hs.silent hi rfl rfl rfl (fun _ => id) (by rintro _ ⟨⟩)⟩
    | tokenHex => exact ⟨births, hs.token hi (by simpa [possible] using hp)⟩
    | getRequest self a =>
      have hmem : ∀ req, (s.requests self).get? a = some req →
          req.context ∈ births ∧ req.actionId = a :=
        fun req hreq => hs.memory self _ (Dict.mem_of_get? hreq)
      refine ⟨births, hs.quiet hi rfl rfl rfl (fun req hreq => (hmem req hreq).1) ?_ ?_⟩
      · rintro _ _ req he
        injection he with ho hr
        cases ho
        exact (hmem req (Except.ok.inj hr)).2
      · rintro _ ⟨⟩
    | allRequests self =>
      refine ⟨births, hs.quiet hi rfl rfl rfl (fun req hreq => ?_) ?_ ?_⟩
      · obtain ⟨p, hp, rfl⟩ := List.mem_map.mp hreq
        exact (hs.memory self p hp).1
      · rintro _ _ _ ⟨⟩
      · rintro _ ⟨⟩
    | putRequest self req =>
      rcases ha with ⟨seen, hseen, hctx⟩ | ⟨hd, hb⟩
      · exact ⟨births, hs.putRequest hi (hctx ▸ hc.seen seen hseen)⟩
      · exact ⟨_, hs.birth hi hd hb⟩
    | insertRow req => exact ⟨births, hs.insertRow hi (hc.seen req ha.1)⟩
    | updateRow req expected => exact ⟨births, hs.updateRow hi (hc.seen _ ha.1) ha.2.1⟩
    | consumeRow a n bound now => exact ⟨births, hs.consumeRow hi⟩
    | selectRows =>
      refine ⟨births, hs.quiet hi rfl rfl rfl (fun req hreq => ?_) ?_ ?_⟩
      · obtain ⟨r, hr, now, hload⟩ := hreq
        obtain ⟨m, rfl, hctx⟩ := hs.rows r hr
        rw [context_load hload]
        exact hctx
      · rintro _ _ _ ⟨⟩
      · rintro _ ⟨⟩

/-! ## What one operation does to the row of an action -/

omit [LinearOrder τ] in
theorem row_insertRow (req : OperatorApprovalRequest τ) (a : String) :
    (s.insertRow req).2.row a = s.row a ∨
      s.row a = none ∧ (s.insertRow req).2.row a = some req.toRow := by
  rw [State.insertRow]
  split
  next => exact .inl rfl
  next hnew =>
    simp only [State.row, List.find?_append]
    cases hf : s.rows.find? (·.actionId = a) with
    | some r => exact .inl rfl
    | none =>
      rw [Option.none_or, List.find?_singleton]
      split
      · exact .inr ⟨rfl, rfl⟩
      · exact .inl rfl

theorem row_consumeRow (a n : String) (bound : Bool) (now : τ) (b : String) :
    (s.consumeRow a n bound now).2.row b = (s.row b).map fun r =>
      if r.consumable a n bound now then { r with state := .consumed } else r :=
  row_map (fun r => by split <;> rfl) b

omit [LinearOrder τ] in
theorem row_updateRow (req expected : OperatorApprovalRequest τ) (a : String) :
    (s.updateRow req expected).2.row a = (s.row a).map fun r =>
      if r.matchesSnapshot expected then r.assign req else r :=
  row_map (fun r => by split <;> rfl) a

theorem consumable_ids {r : Row τ} {a n : String} {bound : Bool} {now : τ}
    (h : r.consumable a n bound now) : r.actionId = a ∧ r.nonce = n := by
  simp only [Row.consumable, Bool.and_eq_true, decide_eq_true_eq] at h
  tauto

theorem consumable_state {r : Row τ} {a n : String} {bound : Bool} {now : τ}
    (h : r.consumable a n bound now) : r.state = .approved ∧ now < r.expiresAt := by
  simp only [Row.consumable, Bool.and_eq_true, decide_eq_true_eq] at h
  tauto

variable [NatCast τ] {E : Env τ}

variable (E) in
inductive RowStep (q : Request τ) (h : History τ) :
    Op τ → Option (Row τ) → Option (Row τ) → Prop
  | kept (o : Op τ) (x : Option (Row τ)) : RowStep q h o x x
  | inserted (req : OperatorApprovalRequest τ) : req.state = .blocked →
      RowStep q h (.insertRow req) none (some req.toRow)
  | updated (req expected : OperatorApprovalRequest τ) : Allowed E q h (.updateRow req expected) →
      RowStep q h (.updateRow req expected) (some expected.toRow) (some req.toRow)
  | consumed (r : Row τ) (bound : Bool) (now : τ) : r.consumable r.actionId r.nonce bound now →
      RowStep q h (.consumeRow r.actionId r.nonce bound now) (some r)
        (some { r with state := .consumed })

theorem row_exec [FloatText τ] (hs : Sound births s ms) (hi : ms[i]? = some (q, h))
    (ha : Allowed E q h o) (w : World τ) (a : String) :
    RowStep E q h o (s.row a) ((exec E o w s).2.row a) := by
  have hc := hs.calls _ (List.mem_of_getElem? hi)
  rw [exec]
  split
  next => exact .kept ..
  next =>
    cases o with
    | now | resolvePath _ | verifyOperator _ _ | verifyDecision _ _ _ _ | nonceConsumed _ _
    | addConsumed _ _ | appendEvent _ _ _ _ | tokenHex | getRequest _ _ | allRequests _
    | putRequest _ _ | selectRows => exact .kept ..
    | insertRow req =>
      rcases row_insertRow (s := s) req a with hrow | ⟨hnone, hrow⟩
      · exact hrow.symm ▸ .kept ..
      · exact hnone.symm ▸ hrow.symm ▸ .inserted req ha.2
    | updateRow req expected =>
      have hrow := row_updateRow (s := s) req expected a
      cases hr : s.row a with
      | none => rw [hr] at hrow; exact hrow.symm ▸ .kept ..
      | some r =>
        rw [hr, Option.map_some] at hrow
        split at hrow
        next hm =>
          have hmatch := hs.matched (hc.seen _ ha.1) (row_some hr).1 hm
          rw [hmatch, assign_toRow ha.2.1] at hrow
          exact hmatch.symm ▸ hrow.symm ▸ .updated req expected ha
        next => exact hrow.symm ▸ .kept ..
    | consumeRow b n bound now =>
      have hrow := row_consumeRow (s := s) b n bound now a
      cases hr : s.row a with
      | none => rw [hr] at hrow; exact hrow.symm ▸ .kept ..
      | some r =>
        rw [hr, Option.map_some] at hrow
        split at hrow
        next hm =>
          obtain ⟨rfl, rfl⟩ := consumable_ids hm
          exact hrow.symm ▸ .consumed r bound now hm
        next => exact hrow.symm ▸ .kept ..

theorem updateRow_one [FloatText τ] (hs : Sound births s ms) {w : World τ}
    {req expected : OperatorApprovalRequest τ} (he : expected.context ∈ births)
    (hctx : req.context = expected.context)
    (hone : (exec E (.updateRow req expected) w s).1 = .ok (1 : Nat)) :
    s.row expected.actionId = some expected.toRow ∧
      (exec E (.updateRow req expected) w s).2.row expected.actionId = some req.toRow := by
  rw [exec] at hone ⊢
  split at hone
  next => cases hone
  next =>
    have hcount : s.rows.countP (·.matchesSnapshot expected) = 1 := Except.ok.inj hone
    obtain ⟨r, hr, hm⟩ := List.countP_pos_iff.mp (hcount ▸ Nat.one_pos)
    obtain rfl := hs.matched he hr hm
    have hrow : s.row expected.actionId = some expected.toRow := row_of_mem hs.keys hr
    refine ⟨hrow, (row_updateRow req expected expected.actionId).trans ?_⟩
    rw [hrow, Option.map_some, if_pos hm, assign_toRow hctx]

theorem consumed_row [FloatText τ] (hk : (s.rows.map (·.actionId)).Nodup) {w : World τ}
    {a n : String} {bound : Bool} {now : τ}
    (hone : (exec E (.consumeRow a n bound now) w s).1 = .ok (1 : Nat)) :
    ∃ r, s.row a = some r ∧ r.consumable a n bound now ∧
      (exec E (.consumeRow a n bound now) w s).2.row a = some { r with state := .consumed } := by
  rw [exec] at hone ⊢
  split at hone
  next => cases hone
  next =>
    have hcount : s.rows.countP (·.consumable a n bound now) = 1 := Except.ok.inj hone
    obtain ⟨r, hr, hm⟩ := List.countP_pos_iff.mp (hcount ▸ Nat.one_pos)
    obtain ⟨rfl, rfl⟩ := consumable_ids hm
    have hrow : s.row r.actionId = some r := row_of_mem hk hr
    refine ⟨r, hrow, hm, (row_consumeRow ..).trans ?_⟩
    rw [hrow, Option.map_some, if_pos hm]

theorem consumeRow_one [FloatText τ] (hs : Sound births s ms) {w : World τ} {a n : String}
    {bound : Bool} {now : τ} (hone : (exec E (.consumeRow a n bound now) w s).1 = .ok (1 : Nat)) :
    ∃ r, s.row a = some r ∧ r.nonce = n ∧ r.state = .approved ∧ now < r.expiresAt ∧
      (exec E (.consumeRow a n bound now) w s).2.row a = some { r with state := .consumed } := by
  obtain ⟨r, hrow, hm, hrow'⟩ := consumed_row hs.keys hone
  obtain ⟨hstate, hnow⟩ := consumable_state hm
  exact ⟨r, hrow, (consumable_ids hm).2, hstate, hnow, hrow'⟩

end Sound

/-! ## Runs -/

section Runs

variable {τ : Type} [LinearOrder τ] [NatCast τ] [Add τ] [FloatText τ] (E : Env τ)

abbrev Calls := (machine E).Config

abbrev Step := Machine.step (M := machine E)

abbrev start : Calls E := (machine E).initial initial

variable {E} {c c' : Calls E} {ls ls' : List (machine E).Label} {i : Nat} {w : World τ}
variable {q : Request τ} {o : Op τ} {h : History τ} {a : String}
variable {k : Except Error o.Ret → Call τ (Response τ)}

abbrev records (c : Calls E) : List (Request τ × History τ) :=
  c.modes (protocol E) fun q => (q, [])

omit [Add τ] [FloatText τ] in
theorem after_start (q : Request τ) (h : History τ) : (protocol E).after (q, []) h = (q, h) :=
  Protocol.after_ofHistory _ _ q [] h

theorem records_call {call : (machine E).Activity} (hc : c.calls[i]? = some call) :
    (records c)[i]? = some (call.request, call.hist) := by
  simp [Machine.Config.modes, hc, Machine.Activity.mode, after_start]

theorem acts_allowed (hrun : Library.Run (Step E) (start E) ls c)
    (hact : Machine.Acts c i w c' q o k h) : Allowed E q h o := by
  have ha := hact.allowed (P := protocol E) (Q := fun q => Outcome E q) body_follows
    (fun _ _ _ _ _ _ => trivial) hrun
  rwa [after_start] at ha

theorem sound_run (hrun : Library.Run (Step E) (start E) ls c) :
    ∃ births, Sound births c.state (records c) := by
  refine Machine.modes_invariant (P := protocol E) (Q := fun q => Outcome E q)
    (J := fun s ms => ∃ births, Sound births s ms) body_follows (fun _ _ _ _ _ _ => trivial)
    ⟨[], sound_initial⟩ ?_ ?_ hrun
  · rintro s ms q ⟨births, hs⟩
    exact ⟨births, hs.start q⟩
  · rintro c i w c' q o k h - hact ⟨births, hs⟩ ha
    simp only [after_start] at ha ⊢
    exact sound_exec hs (records_call hact.call) ha hact.possible

theorem row_step (hrun : Library.Run (Step E) (start E) ls c) {l : (machine E).Label}
    (hs : Step E c l = some c') (a : String) :
    c'.state.row a = c.state.row a ∨ ∃ i w q o k h, l = .act i w ∧
      Machine.Acts c i w c' q o k h ∧ RowStep E q h o (c.state.row a) (c'.state.row a) := by
  cases l with
  | start q => exact .inl (by rw [Machine.step_start hs])
  | act i w =>
    obtain ⟨q, o, k, h, hact⟩ := Machine.step_act hs
    obtain ⟨births, hsound⟩ := sound_run hrun
    refine .inr ⟨i, w, q, o, k, h, rfl, hact, ?_⟩
    rw [hact.result]
    exact row_exec hsound (records_call hact.call) (acts_allowed hrun hact) w a

def Permits (x y : ApprovalState) : Prop := y ∈ permitted x ∨ x = .approved ∧ y = .consumed

inductive Evolves : Option (Row τ) → Option (Row τ) → Prop
  | kept (x : Option (Row τ)) : Evolves x x
  | created (r : Row τ) : r.state = .blocked → Evolves none (some r)
  | moved (r r' : Row τ) : r'.context = r.context → Permits r.state r'.state →
      Evolves (some r) (some r')

theorem evolves_step (hrun : Library.Run (Step E) (start E) ls c) {l : (machine E).Label}
    (hs : Step E c l = some c') (a : String) : Evolves (c.state.row a) (c'.state.row a) := by
  rcases row_step hrun hs a with hrow | ⟨i, w, q, o, k, h, -, -, hrow⟩
  · rw [hrow]
    exact .kept _
  · generalize c.state.row a = x at hrow ⊢
    generalize c'.state.row a = y at hrow ⊢
    cases hrow with
    | kept => exact .kept _
    | inserted req hblocked => exact .created _ hblocked
    | updated req expected hallowed => exact .moved _ _ hallowed.2.1 (.inl hallowed.2.2.1)
    | consumed r bound now hr => exact .moved _ _ rfl (.inr ⟨(consumable_state hr).1, rfl⟩)

theorem permits_active {x y : ApprovalState} (h : Permits x y) : x.active = true := by
  cases x <;> first | rfl | simp [Permits, permitted] at h

theorem evolves_run (hrun : Library.Run (Step E) (start E) ls c)
    (hrun' : Library.Run (Step E) c ls' c') {r : Row τ} (hr : c.state.row a = some r) :
    ∃ r', c'.state.row a = some r' ∧ r'.context = r.context ∧
      Relation.ReflTransGen Permits r.state r'.state ∧ (r.state.active = false → r' = r) := by
  induction hrun' with
  | refl => exact ⟨r, hr, rfl, .refl, fun _ => rfl⟩
  | @tail c₁ c₂ ls' l hp _ hs ih =>
    obtain ⟨r₁, hr₁, hctx, hperm, hfin⟩ := ih
    have hev := evolves_step (hrun.trans hp) hs a
    rw [hr₁] at hev
    generalize hx : c₂.state.row a = x at hev
    cases hev with
    | kept => exact ⟨r₁, rfl, hctx, hperm, hfin⟩
    | moved _ r₂ hctx₂ hperm₂ =>
      refine ⟨r₂, rfl, hctx₂.trans hctx, hperm.tail hperm₂, fun hact => ?_⟩
      rw [hfin hact] at hperm₂
      rw [permits_active hperm₂] at hact
      cases hact

theorem performs_update (hrun : Library.Run (Step E) (start E) ls c) {call : (machine E).Activity}
    (hc : c.calls[i]? = some call) {req expected : OperatorApprovalRequest τ}
    (he : ⟨.updateRow req expected, .ok (1 : Nat)⟩ ∈ call.hist) :
    ∃ ls₁ w c₁ c₂ h, Machine.Performs initial ls c i call.request h
        ⟨.updateRow req expected, .ok (1 : Nat)⟩ ls₁ w c₁ c₂ ∧
      c₁.state.row expected.actionId = some expected.toRow ∧
      c₂.state.row expected.actionId = some req.toRow := by
  obtain ⟨h, h', hh⟩ := List.append_of_mem he
  obtain ⟨ls₁, w, c₁, c₂, hper⟩ := Machine.performs_of_hist hrun hc hh
  obtain ⟨k, hact⟩ := hper.acts
  obtain ⟨births, hs⟩ := sound_run hper.before
  have hi := records_call hact.call
  have ha := acts_allowed hper.before hact
  have hseen := (hs.calls _ (List.mem_of_getElem? hi)).seen expected ha.1
  obtain ⟨hrow, hrow'⟩ := updateRow_one hs hseen ha.2.1 hper.answer
  refine ⟨ls₁, w, c₁, c₂, h, hper, hrow, ?_⟩
  rw [hact.result]
  exact hrow'

theorem got_actionId (hrun : Library.Run (Step E) (start E) ls c) {q : Request τ} {h : History τ}
    (hi : (records c)[i]? = some (q, h)) {self : Nat} {req : OperatorApprovalRequest τ}
    (hg : ⟨.getRequest self a, .ok (some req)⟩ ∈ h) : req.actionId = a := by
  obtain ⟨births, hs⟩ := sound_run hrun
  exact (hs.calls _ (List.mem_of_getElem? hi)).got self a req hg

theorem outcome_call (hrun : Library.Run (Step E) (start E) ls c) {call : (machine E).Activity}
    (hc : c.calls[i]? = some call) {r : Except Error (Response τ)}
    (hr : call.proc.result = some r) : Outcome E call.request (call.request, call.hist) r := by
  have hout := Machine.finished (P := protocol E) (Q := fun q => Outcome E q) body_follows
    (fun _ _ _ _ _ _ => trivial) hrun (List.mem_of_getElem? hc) hr
  rwa [Machine.Activity.mode, after_start] at hout

end Runs

/-! ## A race for one approval -/

section Race

def raceEnv : Env Int where
  conf _ := ⟨900, by decide, true, false, none, "secret"⟩
  sha256 _ := "digest"
  hmac _ _ := "mac"
  repr s := s
  fixed3 _ := "0.000"

def raceOperator : OperatorIdentity := ⟨"alice", "operator", "oidc", "token", by decide, by decide⟩

def raceWorld (time : Int) : World Int := ⟨time, "n", "/w", some true, false⟩

def raceConsume (self : Nat) : Request Int :=
  .consumeForExecution self "act_digest" "s" "t" ["ls"] "/w" 60

def raceStart (q : Request Int) : (machine raceEnv).Label := .start q

def raceActs (i n : Nat) (time : Int) : List (machine raceEnv).Label :=
  List.replicate n (.act i (raceWorld time))

/-- One boundary asks, the other one learns of it and approves; then both try to consume. -/
def race : List (machine raceEnv).Label :=
  raceStart (.createRequest 0 "s" "t" ["ls"] "/w" [] none) :: raceActs 0 6 0 ++
  raceStart (.rehydrateFromDisk 1) :: raceActs 1 3 1 ++
  raceStart (.resolveByOperator 1 "act_digest" .allowOnce raceOperator "" []) :: raceActs 2 6 2 ++
  raceStart (.rehydrateFromDisk 0) :: raceActs 3 3 3 ++
  raceStart (raceConsume 0) :: raceStart (raceConsume 1) ::
    (raceActs 4 5 4 ++ raceActs 5 8 5 ++ raceActs 4 1 4)

def raceRequest : OperatorApprovalRequest Int where
  actionId := "act_digest"
  sessionId := "s"
  taskId := "t"
  command := ["ls"]
  workspacePath := "/w"
  nonce := "n"
  createdAt := 0
  expiresAt := 900
  state := .blocked
  decision := none
  operatorId := ""
  operatorRole := ""
  operatorChannel := ""
  operatorNotes := ""
  questions := []
  answers := []
  operatorVerified := false
  actionBoundVerified := false

def raceApproved : OperatorApprovalRequest Int :=
  raceRequest.resolved false .allowOnce raceOperator "" []

def raceTicket : Ticket Int := ⟨"act_digest", "s", "t", "digest", "n", 65, "mac"⟩

def raceEnd : List (Request Int × Option (Except Error (Response Int))) :=
  [(.createRequest 0 "s" "t" ["ls"] "/w" [] none, some (.ok (.request raceRequest))),
    (.rehydrateFromDisk 1, some (.ok (.rehydrated 1))),
    (.resolveByOperator 1 "act_digest" .allowOnce raceOperator "" [],
      some (.ok (.request raceApproved))),
    (.rehydrateFromDisk 0, some (.ok (.rehydrated 1))),
    (raceConsume 0, some (.ok (.verdict
      (false, "DENIED: durable approval already consumed or changed", none)))),
    (raceConsume 1, some (.ok (.verdict (true, "APPROVED", some raceTicket))))]

theorem race_runs : ∃ c, Library.Run (Step raceEnv) (start raceEnv) race c ∧
    c.calls.map (fun call => (call.request, call.proc.result)) = raceEnd := by
  have h : (Library.exec (Step raceEnv) (start raceEnv) race).any (fun c =>
      c.calls.map (fun call => (call.request, call.proc.result)) = raceEnd) = true := by
    decide +kernel
  obtain ⟨c, hrun, hc⟩ := run_of_any h
  exact ⟨c, hrun, of_decide_eq_true hc⟩

end Race

section Decisions

variable {τ : Type} [LinearOrder τ] [NatCast τ] [Add τ] [FloatText τ] {E : Env τ}
variable {c c' : Calls E} {ls ls' : List (machine E).Label} {i : Nat} {a : String}

/-- The durable row of an action goes through the permitted transitions only, its context and
its final states stay, and what a resolution replaced is what it was computed from. -/
theorem decision_row_linear (hrun : Library.Run (Step E) (start E) ls c) :
    (∀ l c', Step E c l = some c' → ∀ a, Evolves (c.state.row a) (c'.state.row a)) ∧
    (∀ ls' c', Library.Run (Step E) c ls' c' → ∀ a r, c.state.row a = some r →
      ∃ r', c'.state.row a = some r' ∧ r'.context = r.context ∧
        Relation.ReflTransGen Permits r.state r'.state ∧ (r.state.active = false → r' = r)) ∧
    ∀ (i : Nat) call self a decision operator notes answers m, c.calls[i]? = some call →
      call.request = .resolveByOperator self a decision operator notes answers →
      call.proc.result = some (.ok (.request m)) →
      ∃ req ls₁ w c₁ c₂ h, ⟨.getRequest self a, .ok (some req)⟩ ∈ call.hist ∧
        m = req.resolved (E.conf self).decisionVerifier decision operator notes answers ∧
        Machine.Performs initial ls c i call.request h ⟨.updateRow m req, .ok (1 : Nat)⟩
          ls₁ w c₁ c₂ ∧
        c₁.state.row a = some req.toRow ∧ c₂.state.row a = some m.toRow := by
  refine ⟨fun l c' hs a => evolves_step hrun hs a, fun ls' c' hrun' a r hr =>
    evolves_run hrun hrun' hr, ?_⟩
  intro i call self a decision operator notes answers m hc hq hr
  have hout := outcome_call hrun hc hr
  rw [hq] at hout
  obtain ⟨req, hget, hm, hupd⟩ := hout
  obtain rfl := got_actionId hrun (records_call hc) hget
  obtain ⟨ls₁, w, c₁, c₂, h, hper, hrow, hrow'⟩ := performs_update hrun hc hupd
  exact ⟨req, ls₁, w, c₁, c₂, h, hget, hm, hper, hrow, hrow'⟩

theorem decision_row_linear_race : ∃ (c₁ c₂ : Calls raceEnv) (req : OperatorApprovalRequest Int),
    raceApproved = req.resolved false .allowOnce raceOperator "" [] ∧
      c₁.state.row "act_digest" = some req.toRow ∧
      c₂.state.row "act_digest" = some raceApproved.toRow := by
  obtain ⟨c, hrun, hcalls⟩ := race_runs
  have hlen := congrArg (·[2]?) hcalls
  obtain ⟨call, hc, hcall⟩ := Option.map_eq_some_iff.mp ((List.getElem?_map ..).symm.trans hlen)
  obtain ⟨hq, hr⟩ := Prod.mk.inj hcall
  obtain ⟨req, ls₁, w, c₁, c₂, h, -, hm, -, hrow, hrow'⟩ :=
    (decision_row_linear hrun).2.2 2 call _ _ _ _ _ _ _ hc hq hr
  exact ⟨c₁, c₂, req, hm, hrow, hrow'⟩

end Decisions

/-! ## Consumption -/

section Consumption

variable {τ : Type} [LinearOrder τ] [NatCast τ] [Add τ] [FloatText τ] {E : Env τ}
variable {c c' : Calls E} {ls ls' : List (machine E).Label} {i : Nat} {a : String}

variable (E) in
/-- In the run, a resolution whose operator was authenticated and allowed the action once
moved its row to `r`. -/
def ApprovedBy (ls : List (machine E).Label) (a : String) (r : Row τ) : Prop :=
  ∃ ls₁ j w ls₂ c₁ c₂ call self operator notes answers r₁,
    ls = ls₁ ++ .act j w :: ls₂ ∧ Library.Run (Step E) (start E) ls₁ c₁ ∧
    Step E c₁ (.act j w) = some c₂ ∧ c₁.calls[j]? = some call ∧
    call.request = .resolveByOperator self a .allowOnce operator notes answers ∧
    ⟨.verifyOperator self operator, .ok true⟩ ∈ call.hist ∧
    c₁.state.row a = some r₁ ∧ (r₁.state = .blocked ∨ r₁.state = .questionPending) ∧
    c₂.state.row a = some r ∧ r.state = .approved

theorem ApprovedBy.append {r : Row τ} (h : ApprovedBy E ls a r) (ls' : List (machine E).Label) :
    ApprovedBy E (ls ++ ls') a r := by
  obtain ⟨ls₁, j, w, ls₂, c₁, c₂, call, self, operator, notes, answers, r₁, rfl, h⟩ := h
  exact ⟨ls₁, j, w, ls₂ ++ ls', c₁, c₂, call, self, operator, notes, answers, r₁, by simp, h⟩

omit [LinearOrder τ] [NatCast τ] [Add τ] [FloatText τ] in
theorem undecided_of_permitted {x y : ApprovalState} (hy : y = .approved) (h : y ∈ permitted x) :
    x = .blocked ∨ x = .questionPending := by
  subst hy
  cases x <;> simp [permitted] at h ⊢

theorem approved_by (hrun : Library.Run (Step E) (start E) ls c) {r : Row τ}
    (hr : c.state.row a = some r) (hst : r.state = .approved) : ApprovedBy E ls a r := by
  induction hrun with
  | refl => cases hr
  | @tail c c' ls l hp _ hs ih =>
    rcases row_step hp hs a with hrow | ⟨j, w, q, o, k, h, rfl, hact, hrow⟩
    · exact (ih (hrow ▸ hr)).append _
    · rw [hr] at hrow
      generalize hx : c.state.row a = x at hrow
      cases hrow with
      | kept => exact (ih hx).append _
      | inserted req hblocked => cases hblocked.symm.trans hst
      | updated req expected hallowed =>
        obtain ⟨-, -, hperm, haccept⟩ := hallowed
        obtain ⟨self, a', operator, notes, answers, rfl, hver, hget⟩ := haccept hst
        have ha' := got_actionId hp (records_call hact.call) hget
        obtain rfl : a' = a := ha'.symm.trans (row_some hx).2
        exact ⟨ls, j, w, [], c, c', _, self, operator, notes, answers, expected.toRow, rfl, hp, hs,
          hact.call, rfl, hver, hx, undecided_of_permitted hst hperm, hr, hst⟩
      | consumed r₀ bound now hr₀ => cases hst

variable (E) in
/-- What a call that consumed row `r` after the run `ls` relied on. -/
structure Justified (ls : List (machine E).Label) (a session task : String) (command : List String)
    (path : String) (h : History τ) (r : Row τ) : Prop where
  state : r.state = .approved
  approved : ApprovedBy E ls a r
  live : ∀ ls₁ ls₂ c₁ r₁, ls = ls₁ ++ ls₂ → Library.Run (Step E) (start E) ls₁ c₁ →
    c₁.state.row a = some r₁ → r₁.state.active = true
  sameSession : r.sessionId = session
  sameTask : r.taskId = task
  digest : ∃ command' stored passed, loadList r.commandJson = some command' ∧
    ⟨.resolvePath r.workspacePath, .ok stored⟩ ∈ h ∧ ⟨.resolvePath path, .ok passed⟩ ∈ h ∧
    E.sha256 (commandText command' stored r.taskId) = E.sha256 (commandText command passed task)
  time : ∃ now, h[0]? = some ⟨.now, .ok now⟩ ∧ now < r.expiresAt

theorem live_of_approved (hrun : Library.Run (Step E) (start E) ls c) {r : Row τ}
    (hr : c.state.row a = some r) (hst : r.state.active = true) (ls₁ ls₂ : List (machine E).Label)
    (c₁ : Calls E) (r₁ : Row τ) (hls : ls = ls₁ ++ ls₂)
    (h₁ : Library.Run (Step E) (start E) ls₁ c₁) (hr₁ : c₁.state.row a = some r₁) :
    r₁.state.active = true := by
  subst hls
  obtain ⟨c₂, h₂, h₃⟩ := hrun.split
  obtain rfl := h₁.unique h₂
  obtain ⟨r', hr', -, -, hfin⟩ := evolves_run h₁ h₃ hr₁
  obtain rfl : r = r' := Option.some.inj (hr.symm.trans hr')
  by_contra hact
  rw [hfin (by simpa using hact)] at hst
  exact hact hst

theorem performs_consume (hrun : Library.Run (Step E) (start E) ls c)
    {call : (machine E).Activity} (hc : c.calls[i]? = some call) {self : Nat}
    {session task path : String} {command : List String} {ttl : τ}
    (hq : call.request = .consumeForExecution self a session task command path ttl)
    {reason : String} {ticket : Option (Ticket τ)}
    (hr : call.proc.result = some (.ok (.verdict (true, reason, ticket)))) :
    ∃ ls₁ w ls₂ c₁ c₂ r, ls = ls₁ ++ .act i w :: ls₂ ∧ Library.Run (Step E) (start E) ls₁ c₁ ∧
      Step E c₁ (.act i w) = some c₂ ∧ Library.Run (Step E) c₂ ls₂ c ∧
      c₁.state.row a = some r ∧ c₂.state.row a = some { r with state := .consumed } ∧
      Justified E ls₁ a session task command path call.hist r := by
  have hout := outcome_call hrun hc hr
  rw [hq] at hout
  obtain ⟨a', n, bound, now, hcons⟩ := hout
  obtain ⟨h, h', hh⟩ := List.append_of_mem hcons
  change call.hist = _ at hh
  obtain ⟨ls₁, w, c₁, c₂, hper⟩ := Machine.performs_of_hist hrun hc hh
  obtain ⟨ls₂, hls, h₂⟩ := hper.split
  obtain ⟨k, hact⟩ := hper.acts
  obtain ⟨births, hs⟩ := sound_run hper.before
  have hi := records_call hact.call
  have ha := acts_allowed hper.before hact
  rw [hq] at ha
  obtain ⟨_, _, _, _, _, _, _, req, ⟨⟩, hv, rfl, rfl⟩ := ha
  obtain rfl := got_actionId hper.before hi hv.snapshot
  obtain ⟨r, hrow, hn, hst, hnow, hrow'⟩ := consumeRow_one hs hper.answer
  have hctx : r.context = req.context := by
    obtain ⟨m, rfl, hm⟩ := hs.rows r (row_some hrow).1
    have hseen := (hs.calls _ (List.mem_of_getElem? hi)).seen req (seen_of_get hv.snapshot)
    exact List.inj_on_of_nodup_map hs.nonces hm hseen hn
  simp only [Row.context, OperatorApprovalRequest.context, Context.mk.injEq] at hctx
  obtain ⟨-, hsession, htask, hcommand, hpath, -⟩ := hctx
  refine ⟨ls₁, w, ls₂, c₁, c₂, r, hls, hper.before, hact.isStep, h₂, hrow, ?_, ?_⟩
  · rw [hact.result]
    exact hrow'
  have hsub : ∀ e ∈ h, e ∈ call.hist := fun e he => hh ▸ List.mem_append_left _ he
  obtain ⟨stored, passed, hstored, hpassed, hdigest⟩ := hv.digest
  exact {
    state := hst
    approved := approved_by hper.before hrow hst
    live := live_of_approved hper.before hrow (by rw [hst]; rfl)
    sameSession := hsession.trans hv.session
    sameTask := htask.trans hv.task
    digest := ⟨req.command, stored, passed, by rw [hcommand, loadList_dumpList],
      hsub _ (hpath ▸ hstored), hsub _ hpassed, htask ▸ hdigest⟩
    time := by
      have hlt := (List.getElem?_eq_some_iff.mp hv.time).1
      refine ⟨now, ?_, hnow⟩
      rw [hh, List.getElem?_append_left hlt]
      exact hv.time }

/-- A call of `consume_for_execution` for the action that answered `True`. -/
def Grants (a : String) (call : (machine E).Activity) : Prop :=
  ∃ self session task command path ttl reason ticket,
    call.request = .consumeForExecution self a session task command path ttl ∧
    call.proc.result = some (.ok (.verdict (true, reason, ticket)))

theorem not_consumed_twice {ls₁ ls₂ : List (machine E).Label} {c₁ c₂ c₃ : Calls E} {r r' : Row τ}
    {l : (machine E).Label} (h₁ : Library.Run (Step E) (start E) ls₁ c₁)
    (hs : Step E c₁ l = some c₂) (hr : c₂.state.row a = some { r with state := .consumed })
    (h₃ : Library.Run (Step E) (start E) (ls₁ ++ l :: ls₂) c₃) (hr' : c₃.state.row a = some r')
    (hst : r'.state = .approved) : False := by
  have h₂ : Library.Run (Step E) (start E) (ls₁ ++ [l]) c₂ := .tail h₁ trivial hs
  have hlive := live_of_approved h₃ hr' (by rw [hst]; rfl) (ls₁ ++ [l]) ls₂ c₂ _ (by simp) h₂ hr
  cases hlive

/-- Each action is consumed by at most one call, and only as an operator allowed it. -/
theorem consumed_once (hrun : Library.Run (Step E) (start E) ls c) :
    (∀ (a : String) (i j : Nat) call call', c.calls[i]? = some call → c.calls[j]? = some call' →
      Grants a call → Grants a call' → i = j) ∧
    ∀ (i : Nat) call self a session task command path ttl reason ticket,
      c.calls[i]? = some call →
      call.request = .consumeForExecution self a session task command path ttl →
      call.proc.result = some (.ok (.verdict (true, reason, ticket))) →
      ∃ ls₁ w ls₂ c₁ c₂ r, ls = ls₁ ++ .act i w :: ls₂ ∧ Library.Run (Step E) (start E) ls₁ c₁ ∧
        Step E c₁ (.act i w) = some c₂ ∧ Library.Run (Step E) c₂ ls₂ c ∧
        c₁.state.row a = some r ∧ c₂.state.row a = some { r with state := .consumed } ∧
        Justified E ls₁ a session task command path call.hist r := by
  refine ⟨?_, fun i call self a session task command path ttl reason ticket hc hq hr =>
    performs_consume hrun hc hq hr⟩
  rintro a i j call call' hc hc' ⟨_, _, _, _, _, _, _, _, hq, hr⟩ ⟨_, _, _, _, _, _, _, _, hq', hr'⟩
  obtain ⟨ls₁, w, ls₂, c₁, c₂, r, hls, h₁, hs, -, hrow₁, hrow, hj⟩ := performs_consume hrun hc hq hr
  obtain ⟨ls₁', w', ls₂', c₁', c₂', r', hls', h₁', hs', -, hrow₁', hrow', hj'⟩ :=
    performs_consume hrun hc' hq' hr'
  rcases List.append_eq_append_iff.mp (hls.symm.trans hls') with ⟨as, rfl, has⟩ | ⟨as, rfl, has⟩
  · cases as with
    | nil => exact (Machine.Label.act.inj (List.cons.inj has).1).1
    | cons l as =>
      obtain ⟨rfl, -⟩ := List.cons.inj has
      exact (not_consumed_twice h₁ hs hrow h₁' hrow₁' hj'.state).elim
  · cases as with
    | nil => exact (Machine.Label.act.inj (List.cons.inj has).1).1.symm
    | cons l as =>
      obtain ⟨rfl, -⟩ := List.cons.inj has
      exact (not_consumed_twice h₁' hs' hrow' h₁ hrow₁ hj.state).elim

theorem consumed_once_race : ∃ (c : Calls raceEnv) (call : (machine raceEnv).Activity) (ls₁ : _)
    (r : Row Int), c.calls[5]? = some call ∧ Grants "act_digest" call ∧
      Justified raceEnv ls₁ "act_digest" "s" "t" ["ls"] "/w" call.hist r := by
  obtain ⟨c, hrun, hcalls⟩ := race_runs
  have hlen := congrArg (·[5]?) hcalls
  obtain ⟨call, hc, hcall⟩ := Option.map_eq_some_iff.mp ((List.getElem?_map ..).symm.trans hlen)
  obtain ⟨hq, hr⟩ := Prod.mk.inj hcall
  obtain ⟨ls₁, w, ls₂, c₁, c₂, r, -, -, -, -, -, -, hj⟩ :=
    (consumed_once hrun).2 5 call _ _ _ _ _ _ _ _ _ hc hq hr
  exact ⟨c, call, ls₁, r, hc, ⟨_, _, _, _, _, _, _, _, hq, hr⟩, hj⟩

end Consumption

end SubagentBridge.OperatorBoundary
