import SubagentBridge.Library.Solo
import SubagentBridge.Planner.DurableBudgetLaws

/-! The allowance over whole runs, and the durable ledger in lockstep with the one in memory. -/

namespace SubagentBridge.Planner

open Library Domain

namespace DurableBudgetLedger

/-! ## Runs of the connections -/

abbrev Connections := connections.Config

abbrev Step := Machine.step (M := connections)

def settledBy (ledgerId : String) (c : Connections) : connections.Label → List (Settlement Amount)
  | .start _ => []
  | .act i w => match c.calls[i]? with
    | some ⟨_, .call o _, _⟩ => settled ledgerId c.state (exec o w c.state).1.toBool o
    | _ => []

/-- What a call may do: pass checked arguments on, and open the ledger of its connection. -/
def MayDo (q : Connection × LedgerCall) (o : Op) : Prop :=
  o.Valid ∧ ∀ ledgerId tokens cost maxWorkers, o = .insertLedger ledgerId tokens cost maxWorkers →
    q = (⟨ledgerId, tokens, cost, maxWorkers⟩, .connect)

def OpenedWith (c : Connections) (conn : Connection) : Prop :=
  ∃ call ∈ c.calls, call.request = (conn, .connect) ∧
    ⟨.insertLedger conn.ledgerId conn.tokens conn.costMicrounits conn.maxWorkers,
      .ok ()⟩ ∈ call.hist

/-- The ledger is not there yet, or every unit of its initial allowance is accounted for. -/
inductive Accounted (ledgerId : String) (c : Connections) (xs : List (Settlement Amount)) : Prop
  | fresh (hf : Fresh ledgerId c.state) (hxs : xs = [])
  | opened (row : LedgerRow) (tokens cost : Int) (hrow : c.state.ledgers.get? ledgerId = some row)
      (hopen : OpenedWith c ⟨ledgerId, tokens, cost, row.maxWorkers⟩)
      (hc : Escrow.Conserved row.maxWorkers (tokens, cost) (account ledgerId row c.state) xs)

section Runs

variable {db : Db} {ledgerId : String} {o : Op} {fails : Bool} {c c' c₂ : Connections}
variable {ls : List connections.Label} {i : Nat} {q : Connection × LedgerCall}
variable {k : Except Error o.Ret → Call Answer} {h : List (Event sig Error)}
variable {xs : List (Settlement Amount)} {conn : Connection}

theorem mayDo_of_valid (hv : o.Valid) (ho : ∀ ledgerId tokens cost maxWorkers,
    o ≠ .insertLedger ledgerId tokens cost maxWorkers) : MayDo q o :=
  ⟨hv, fun _ _ _ _ he => (ho _ _ _ _ he).elim⟩

theorem body_mayDo (q : Connection × LedgerCall) : (body q).Only (MayDo q) := by
  obtain ⟨conn, call⟩ := q
  cases call with
  | reserve dispatchId tokens cost =>
    refine Proc.Only.bind (Proc.only_require_bind fun hv => ?_) fun _ => trivial
    exact (Proc.only_op _).mpr (mayDo_of_valid hv.2 nofun)
  | release dispatchId tokens cost =>
    refine Proc.Only.bind (Proc.only_require_bind fun _ => ?_) fun _ => trivial
    exact (Proc.only_op _).mpr (mayDo_of_valid trivial nofun)
  | snapshot =>
    refine Proc.Only.bind (Proc.only_op_bind (mayDo_of_valid trivial nofun) fun row => ?_)
      fun _ => trivial
    exact Proc.only_op_bind (mayDo_of_valid trivial nofun) fun _ => trivial
  | connect =>
    refine Proc.Only.bind (Proc.only_require_bind fun hv => ?_) fun _ => trivial
    refine Proc.only_op_bind (mayDo_of_valid trivial nofun) fun row => ?_
    cases row with
    | none =>
      refine (Proc.only_op _).mpr ⟨hv, fun _ _ _ _ he => ?_⟩
      cases he
      rfl
    | some row => trivial

theorem settled_fresh (hf : Fresh ledgerId db) (succeeded : Bool) (o : Op) :
    settled ledgerId db succeeded o = [] := by
  cases o <;> simp [settled, settlement, hf.2]

theorem run_fresh (hf : Fresh ledgerId db) :
    Fresh ledgerId (run o db).2 ∨ ∃ tokens cost maxWorkers,
      (⟨o, (run o db).1⟩ : Event sig Error) =
        ⟨.insertLedger ledgerId tokens cost maxWorkers, .ok ()⟩ ∧
      (run o db).2.ledgers.get? ledgerId = some ⟨tokens, cost, maxWorkers⟩ ∧
      rowsOf ledgerId (run o db).2.reservations = [] := by
  cases o with
  | selectLedger | countActive => exact .inl hf
  | insertLedger ledgerId' tokens cost maxWorkers =>
    rw [run]
    rcases atomically_cases (Db.insertLedger ledgerId' tokens cost maxWorkers) db with
      ⟨e, -, hat⟩ | ⟨_, db', h, hat⟩
    · rw [hat]
      exact .inl hf
    · obtain ⟨-, rfl⟩ := insert_ok h
      rw [hat]
      by_cases hne : ledgerId' = ledgerId
      · subst hne
        exact .inr ⟨tokens, cost, maxWorkers, rfl, by rw [Dict.get?_set, if_pos rfl], hf.2⟩
      · exact .inl ⟨by rw [Dict.get?_set, if_neg hne, hf.1], hf.2⟩
  | reserve ledgerId' dispatchId tokens cost =>
    rw [run]
    rcases atomically_cases (Db.reserve ledgerId' dispatchId tokens cost) db with
      ⟨e, -, hat⟩ | ⟨r, db', h, hat⟩
    · rw [hat]
      exact .inl hf
    · obtain ⟨row, hrow, hnew, -, rfl⟩ := reserve_ok h
      have hne : ledgerId' ≠ ledgerId := fun he => by cases (he ▸ hrow).symm.trans hf.1
      rw [hat]
      exact .inl ⟨by rw [Dict.get?_set, if_neg hne, hf.1], by rw [rowsOf_set_other hne hnew, hf.2]⟩
  | release ledgerId' dispatchId tokens cost =>
    rw [run]
    rcases atomically_cases (Db.release ledgerId' dispatchId tokens cost) db with
      ⟨e, -, hat⟩ | ⟨_, db', h, hat⟩
    · rw [hat]
      exact .inl hf
    · obtain ⟨r, row, -, hrow, -, rfl⟩ := release_ok h
      have hne : ledgerId' ≠ ledgerId := fun he => by cases (he ▸ hrow).symm.trans hf.1
      rw [hat]
      exact .inl ⟨by rw [Dict.get?_set, if_neg hne, hf.1],
        by rw [rowsOf_erase_other _ _ hne, hf.2]⟩

theorem OpenedWith.step {l : connections.Label} (ho : OpenedWith c conn)
    (hs : Step c l = some c') : OpenedWith c' conn := by
  obtain ⟨call, hmem, hq, he⟩ := ho
  obtain ⟨i, hi⟩ := List.getElem?_of_mem hmem
  obtain ⟨call', h', hi', hq', hh⟩ :=
    Machine.call_of_run (G := fun _ _ => True) (.single trivial hs) hi
  exact ⟨call', List.mem_of_getElem? hi', hq'.trans hq, hh ▸ List.mem_append_left _ he⟩

theorem Accounted.act (ha : Accounted ledgerId c xs) (hact : Machine.Acts c i fails c' q o k h)
    (hmay : MayDo q o) :
    Accounted ledgerId c' (xs ++ settled ledgerId c.state (exec o fails c.state).1.toBool o) := by
  have hstate : c'.state = (exec o fails c.state).2 := by rw [hact.result]
  cases ha with
  | opened row tokens cost hrow hopen hc =>
    obtain ⟨row', hrow', hmax, hmoves⟩ := (exec_stepped fails hmay.1 hrow).step
    refine .opened row' tokens cost (hstate ▸ hrow') ?_ ?_
    · rw [hmax]
      exact hopen.step hact.isStep
    · rw [hmax, hstate]
      exact hc.move hmoves
  | fresh hf hxs =>
    rw [hxs, settled_fresh hf, List.append_nil]
    rw [exec] at hstate
    split at hstate
    · exact .fresh (hstate ▸ hf) rfl
    next hok =>
      rcases run_fresh (o := o) hf with hf' | ⟨tokens, cost, maxWorkers, he, hrow, hrows⟩
      · exact .fresh (hstate ▸ hf') rfl
      · obtain ⟨rfl, -⟩ := Event.mk.inj he
        have hv := hmay.1
        refine .opened ⟨tokens, cost, maxWorkers⟩ tokens cost (hstate ▸ hrow) ?_ ?_
        · refine ⟨_, List.mem_of_getElem? hact.call_after, hmay.2 _ _ _ _ rfl, ?_⟩
          change _ ∈ h ++ [⟨_, (exec _ fails c.state).1⟩]
          rw [exec, if_neg hok, he]
          simp
        · rw [account, hstate, hrows]
          exact Escrow.conserved_initial ⟨hv.1, hv.2.1⟩ hv.2.2.le

theorem Accounted.start (ha : Accounted ledgerId c xs) (hs : Step c (.start q) = some c') :
    Accounted ledgerId c' xs := by
  have hstate : c'.state = c.state := by rw [Machine.step_start hs]
  cases ha with
  | fresh hf hxs => exact .fresh (hstate ▸ hf) hxs
  | opened row tokens cost hrow hopen hc =>
    exact .opened row tokens cost (hstate ▸ hrow) (hopen.step hs) (hstate ▸ hc)

theorem accounted_run (hf : Fresh ledgerId db) (hrun : Run Step (connections.initial db) ls c) :
    Accounted ledgerId c (trace Step (settledBy ledgerId) (connections.initial db) ls) := by
  induction hrun with
  | refl => exact .fresh hf rfl
  | @tail c c' ls l hp _ hs ih =>
    rw [trace_snoc _ hp]
    cases l with
    | start q =>
      rw [settledBy, List.append_nil]
      exact ih.start hs
    | act i fails =>
      obtain ⟨q, o, k, h, hact⟩ := Machine.step_act hs
      have hby : settledBy ledgerId c (.act i fails) =
          settled ledgerId c.state (exec o fails c.state).1.toBool o := by
        rw [settledBy, hact.call]
      rw [hby]
      exact ih.act hact (hact.only body_mayDo hp)

def Op.reads : Op → Bool
  | .selectLedger _ | .countActive _ => true
  | _ => false

def Harmless (e : Event sig Error) : Prop := e.op.reads = true ∨ ∃ err, e.ans = .error err

theorem harmless_exec (hh : Harmless ⟨o, (exec o fails db).1⟩) : (exec o fails db).2 = db := by
  rcases hh with ho | ⟨err, he⟩
  · rw [exec]
    split
    · rfl
    · cases o <;> first | rfl | cases ho
  · exact exec_error he

abbrev recorded : Protocol sig Error :=
  .ofHistory (fun (_ : Connection × LedgerCall) _ _ => True) fun _ _ => True

def Untouched (m : recorded.Mode) {α : Type} (r : Except Error α) : Prop :=
  ∀ err, r = .error err → ∀ e ∈ m.2, Harmless e

theorem untouched_ok {m : recorded.Mode} {α : Type} (a : α) : Untouched m (.ok a) :=
  fun _ he => by cases he

theorem untouched_last (hh : ∀ e ∈ h, Harmless e) :
    (perform o).Follows recorded (fun m => Untouched m) (q, h) := by
  refine ⟨trivial, fun r _ => ?_⟩
  cases r with
  | ok a => exact untouched_ok a
  | error err =>
    intro _ _ e hmem
    rcases List.mem_append.mp hmem with hmem | hmem
    · exact hh e hmem
    · exact List.mem_singleton.mp hmem ▸ .inr ⟨err, rfl⟩

theorem untouched_read {α : Type} {f : o.Ret → Call α} (ho : o.reads = true)
    (hh : ∀ e ∈ h, Harmless e)
    (hf : ∀ a h', (∀ e ∈ h', Harmless e) → (f a).Follows recorded (fun m => Untouched m) (q, h')) :
    ((perform o).bind f).Follows recorded (fun m => Untouched m) (q, h) := by
  have hsnoc : ∀ r : Except Error o.Ret, ∀ e ∈ h ++ [⟨o, r⟩], Harmless e := by
    intro r e hmem
    rcases List.mem_append.mp hmem with hmem | hmem
    · exact hh e hmem
    · exact List.mem_singleton.mp hmem ▸ .inl ho
  exact (Proc.follows_op_bind ..).mpr
    ⟨trivial, fun a _ => hf a _ (hsnoc (.ok a)), fun err _ _ _ => hsnoc (.error err)⟩

theorem untouched_response {α β : Type} {p : Call α} {f : α → β}
    (hp : p.Follows recorded (fun m => Untouched m) (q, h)) :
    (p.bind fun a => .ret (f a)).Follows recorded (fun m => Untouched m) (q, h) :=
  hp.bind (fun _ a _ => untouched_ok (f a)) fun _ _ hm err he => by
    cases he
    exact hm _ rfl

theorem body_untouched (q : Connection × LedgerCall) :
    (body q).Follows recorded (fun m => Untouched m) (q, []) := by
  have hnil : ∀ e ∈ ([] : List (Event sig Error)), Harmless e := by simp
  obtain ⟨conn, call⟩ := q
  cases call with
  | reserve | release =>
    refine untouched_response ?_
    exact (Proc.follows_require_bind ..).mpr ⟨fun _ => untouched_last hnil, fun _ _ _ => hnil⟩
  | snapshot =>
    refine untouched_response (untouched_read rfl hnil fun row h hh => ?_)
    exact untouched_read rfl hh fun active h _ => untouched_ok _
  | connect =>
    refine untouched_response ?_
    refine (Proc.follows_require_bind ..).mpr ⟨fun _ => ?_, fun _ _ _ => hnil⟩
    refine untouched_read rfl hnil fun row h hh => ?_
    cases row with
    | none => exact untouched_last hh
    | some row => exact untouched_ok _

theorem untouched_run (h₁ : Run Step (connections.initial db) ls c)
    (hact : Machine.Acts c i fails c' q o k h) {ls₂ : List connections.Label}
    (h₂ : Run Step c' ls₂ c₂) {call : connections.Activity} (hc : c₂.calls[i]? = some call)
    {e : Error} (hr : call.proc.result = some (.error e)) : c'.state = c.state := by
  have hrun := (h₁.trans (.single trivial hact.isStep)).trans h₂
  have hout := Machine.finished (P := recorded) (Q := fun _ m => Untouched m) body_untouched
    (fun _ _ _ _ _ _ => trivial) hrun (List.mem_of_getElem? hc) hr
  rw [Machine.Activity.mode, Protocol.after_ofHistory] at hout
  rw [hact.result]
  exact harmless_exec (hout e rfl _ (hact.recorded h₂ hc).2)

end Runs

/-! ## Lockstep with the ledger in memory -/

/-- The ledger in memory and the row of the durable one hold the same, within what SQLite can
store. -/
structure Mirrors (ledgerId : String) (b : BudgetLedger) (db : Db) : Prop where
  row : db.ledgers.get? ledgerId = some ⟨b.tokens, b.cost, b.maxWorkers⟩
  held : rowsOf ledgerId db.reservations = amounts b.reservations
  bounded : ∃ (initial : Amount) (xs : List (Settlement Amount)),
    (initial.1 < 2 ^ 63 ∧ initial.2 < 2 ^ 63) ∧
      Escrow.Conserved b.maxWorkers initial b.account xs

section Lockstep

variable {ledgerId dispatchId : String} {b : BudgetLedger} {db : Db} {tokens cost : Int}

theorem Mirrors.get? (hm : Mirrors ledgerId b db) (dispatchId : String) :
    (db.reservations.get? (ledgerId, dispatchId)).map ReservationRow.amount =
      (b.reservations.get? dispatchId).map Reservation.amount := by
  rw [← get?_rowsOf, ← get?_amounts, hm.held]

theorem Mirrors.absent (hm : Mirrors ledgerId b db) (dispatchId : String) :
    db.reservations.get? (ledgerId, dispatchId) = none ↔ b.reservations.get? dispatchId = none := by
  rw [← Option.map_eq_none_iff (f := ReservationRow.amount), hm.get?, Option.map_eq_none_iff]

theorem Mirrors.activeCount (hm : Mirrors ledgerId b db) :
    db.activeCount ledgerId = b.reservations.length := by
  rw [← length_rowsOf, hm.held, amounts, List.length_map]

theorem Mirrors.storable (hm : Mirrors ledgerId b db) :
    (0 ≤ b.tokens ∧ b.tokens < 2 ^ 63) ∧ 0 ≤ b.cost ∧ b.cost < 2 ^ 63 := by
  obtain ⟨initial, xs, ⟨ht, hc⟩, hcons⟩ := hm.bounded
  obtain ⟨hle₁, hle₂⟩ : b.tokens ≤ initial.1 ∧ b.cost ≤ initial.2 := hcons.available_le
  obtain ⟨h₁, h₂⟩ : 0 ≤ b.tokens ∧ 0 ≤ b.cost := hcons.sound.available
  omega

theorem Mirrors.storable_refund (hm : Mirrors ledgerId b db) {r : Reservation}
    (hr : b.reservations.get? dispatchId = some r) :
    b.tokens + r.tokenAllowance < 2 ^ 63 ∧ b.cost + r.costMicrounits < 2 ^ 63 := by
  obtain ⟨initial, xs, ⟨ht, hc⟩, hcons⟩ := hm.bounded
  obtain ⟨hle₁, hle₂⟩ : b.tokens + r.tokenAllowance ≤ initial.1 ∧
      b.cost + r.costMicrounits ≤ initial.2 := hcons.available_add_le (get?_amounts_some hr)
  omega

theorem bounded_perform (hm : Mirrors ledgerId b db) (call : LedgerCall) :
    ∃ (initial : Amount) (xs : List (Settlement Amount)),
      (initial.1 < 2 ^ 63 ∧ initial.2 < 2 ^ 63) ∧
        Escrow.Conserved (b.perform call).2.maxWorkers initial (b.perform call).2.account xs := by
  obtain ⟨initial, xs, hb, hcons⟩ := hm.bounded
  obtain ⟨hmax, hmoves⟩ := BudgetLedger.perform_moves b call
  exact ⟨initial, _, hb, hmax ▸ hcons.move hmoves⟩

theorem reserve_mirrors (hm : Mirrors ledgerId b db)
    (hv : isBlank dispatchId = false ∧ 0 ≤ tokens ∧ 0 ≤ cost) :
    db.reserve ledgerId dispatchId tokens cost =
      ((b.reserve dispatchId tokens cost).mapError .raised).map fun p => (p.1, {
        ledgers := db.ledgers.set ledgerId ⟨p.2.tokens, p.2.cost, p.2.maxWorkers⟩
        reservations := db.reservations.set (ledgerId, dispatchId) ⟨tokens, cost⟩ }) := by
  have hstorable := hm.storable
  simp only [Db.reserve, hm.row, BudgetLedger.reserve, require, hv, and_self, if_true,
    hm.absent dispatchId, hm.activeCount, Int.ofNat_le]
  by_cases habsent : b.reservations.get? dispatchId = none
  · by_cases hroom : b.maxWorkers ≤ b.reservations.length ∨ b.tokens < tokens ∨ b.cost < cost
    · simp [habsent, hroom, bind, Except.bind, Except.mapError, Except.map]
    · have hnew : storable (b.tokens - tokens) ∧ storable (b.cost - cost) := by
        unfold storable
        omega
      have hargs : storable tokens ∧ storable cost := by
        unfold storable
        omega
      simp [habsent, hroom, hnew, hargs, bind, Except.bind, pure, Except.pure, Except.mapError,
        Except.map]
  · simp [habsent, bind, Except.bind, Except.mapError, Except.map]

theorem release_mirrors (hm : Mirrors ledgerId b db) (hv : 0 ≤ tokens ∧ 0 ≤ cost) :
    db.release ledgerId dispatchId tokens cost =
      ((b.release dispatchId tokens cost).mapError .raised).map fun b' => ((), {
        ledgers := db.ledgers.set ledgerId ⟨b'.tokens, b'.cost, b'.maxWorkers⟩
        reservations := db.reservations.erase (ledgerId, dispatchId) }) := by
  have hstorable := hm.storable
  have hget := hm.get? dispatchId
  cases hr : b.reservations.get? dispatchId with
  | none =>
    rw [hr, Option.map_none, Option.map_eq_none_iff] at hget
    simp [Db.release, BudgetLedger.release, hget, hr, require, hv, bind, Except.bind, throw,
      throwThe, MonadExceptOf.throw, Except.mapError, Except.map]
  | some r =>
    rw [hr, Option.map_some, Option.map_eq_some_iff] at hget
    obtain ⟨r', hr', hamount⟩ := hget
    obtain ⟨htokens, hcost⟩ := Prod.mk.inj hamount
    have hfits := hm.storable_refund hr
    by_cases hle : tokens ≤ r.tokenAllowance ∧ cost ≤ r.costMicrounits
    · have hnew : storable (b.tokens + tokens) ∧ storable (b.cost + cost) := by
        unfold storable
        omega
      simp [Db.release, BudgetLedger.release, hr', hr, hm.row, htokens, hcost, require, hv, hle,
        hnew, bind, Except.bind, pure, Except.pure, Except.mapError, Except.map]
    · simp [Db.release, BudgetLedger.release, hr', hr, htokens, hcost, require, hv, hle, bind,
        Except.bind, Except.mapError, Except.map]

theorem solo_write {α : Type} {p : Prop} [Decidable p] {e : Error} {o : Op} {f : o.Ret → α} :
    (((Proc.require p e).bind fun _ => perform o).bind fun a => .ret (f a)).solo run db =
      if p then ((run o db).1.map f, (run o db).2) else (.error e, db) := by
  rw [Proc.solo_bind_ret, Proc.solo_require_bind]
  by_cases hp : p
  · rw [if_pos hp, if_pos hp, perform, Proc.solo_op]
  · rw [if_neg hp, if_neg hp]
    rfl

theorem solo_connect (conn : Connection) (db : Db) : (body (conn, .connect)).solo run db =
    if 0 ≤ conn.tokens ∧ 0 ≤ conn.costMicrounits ∧ 0 < conn.maxWorkers then
      match db.ledgers.get? conn.ledgerId with
      | none =>
        let p := run (.insertLedger conn.ledgerId conn.tokens conn.costMicrounits
          conn.maxWorkers) db
        (p.1.map fun _ => .none, p.2)
      | some _ => (.ok .none, db)
    else (.error (.raised (.value
      "nonnegative integer budgets and positive worker ceiling required")), db) := by
  simp only [body, openLedger, Proc.bind_eq, perform]
  refine (Proc.solo_bind_ret _ (fun _ => Answer.none) db).trans ?_
  rw [Proc.solo_require_bind]
  by_cases hv : 0 ≤ conn.tokens ∧ 0 ≤ conn.costMicrounits ∧ 0 < conn.maxWorkers
  · rw [if_pos hv, if_pos hv, Proc.solo_op_bind, run]
    cases db.ledgers.get? conn.ledgerId with
    | some row => rfl
    | none =>
      exact congrArg (fun p : Except Error Unit × Db => (p.1.map fun _ => Answer.none, p.2))
        (Proc.solo_op _)
  · rw [if_neg hv, if_neg hv]
    rfl

def Lockstep (ledgerId : String) (p : Except Domain.Error Answer × BudgetLedger)
    (p' : Except Error Answer × Db) : Prop :=
  p'.1 = p.1.mapError .raised ∧ Mirrors ledgerId p.2 p'.2

variable {conn : Connection}

theorem reserve_lockstep (hm : Mirrors conn.ledgerId b db) (dispatchId : String)
    (tokens cost : Int) : Lockstep conn.ledgerId (b.perform (.reserve dispatchId tokens cost))
      ((body (conn, .reserve dispatchId tokens cost)).solo run db) := by
  have hbounded := bounded_perform hm (.reserve dispatchId tokens cost)
  have hbody : (body (conn, .reserve dispatchId tokens cost)).solo run db = _ := solo_write
  rw [hbody, BudgetLedger.perform] at *
  by_cases hv : isBlank dispatchId = false ∧ 0 ≤ tokens ∧ 0 ≤ cost
  · rw [if_pos hv, run, atomically, reserve_mirrors hm hv]
    cases h : b.reserve dispatchId tokens cost with
    | error e => exact ⟨rfl, hm⟩
    | ok p =>
      obtain ⟨-, hnew, -, hr, hb⟩ := BudgetLedger.reserve_ok h
      rw [h] at hbounded
      refine ⟨rfl, ?_, ?_, hbounded⟩
      · exact (Dict.get?_set ..).trans (if_pos rfl)
      · calc
          rowsOf conn.ledgerId (db.reservations.set (conn.ledgerId, dispatchId) ⟨tokens, cost⟩)
          _ = (amounts b.reservations).set dispatchId (tokens, cost) := by
            rw [rowsOf_set ((hm.absent dispatchId).mpr hnew), hm.held]
            rfl
          _ = amounts p.2.reservations := by
            rw [hb, amounts_set hnew, hr]
            rfl
  · have herror : b.reserve dispatchId tokens cost =
        .error (.value "dispatch ID and nonnegative integer ceilings required") := by
      rw [BudgetLedger.reserve, require, if_neg hv]
      rfl
    rw [if_neg hv, herror]
    exact ⟨rfl, hm⟩

theorem release_lockstep (hm : Mirrors conn.ledgerId b db) (dispatchId : String)
    (tokens cost : Int) : Lockstep conn.ledgerId (b.perform (.release dispatchId tokens cost))
      ((body (conn, .release dispatchId tokens cost)).solo run db) := by
  have hbounded := bounded_perform hm (.release dispatchId tokens cost)
  have hbody : (body (conn, .release dispatchId tokens cost)).solo run db = _ := solo_write
  rw [hbody, BudgetLedger.perform] at *
  by_cases hv : 0 ≤ tokens ∧ 0 ≤ cost
  · rw [if_pos hv, run, atomically, release_mirrors hm hv]
    cases h : b.release dispatchId tokens cost with
    | error e => exact ⟨rfl, hm⟩
    | ok b' =>
      obtain ⟨r, hr, -, -, hb⟩ := BudgetLedger.release_ok h
      rw [h] at hbounded
      refine ⟨rfl, ?_, ?_, hbounded⟩
      · exact (Dict.get?_set ..).trans (if_pos rfl)
      · change rowsOf _ (db.reservations.erase (conn.ledgerId, dispatchId)) =
          amounts b'.reservations
        rw [rowsOf_erase, hm.held, hb, amounts_erase]
  · have herror : b.release dispatchId tokens cost =
        .error (.value "refunds must be nonnegative integers") := by
      rw [BudgetLedger.release, require, if_neg hv]
      rfl
    rw [if_neg hv, herror]
    exact ⟨rfl, hm⟩

theorem lockstep (hm : Mirrors conn.ledgerId b db)
    (hv : 0 ≤ conn.tokens ∧ 0 ≤ conn.costMicrounits ∧ 0 < conn.maxWorkers) (call : LedgerCall) :
    Lockstep conn.ledgerId (b.perform call) ((body (conn, call)).solo run db) := by
  cases call with
  | reserve dispatchId tokens cost => exact reserve_lockstep hm dispatchId tokens cost
  | release dispatchId tokens cost => exact release_lockstep hm dispatchId tokens cost
  | snapshot =>
    refine ⟨?_, hm⟩
    change (Except.ok (Answer.snapshot ⟨_, _, db.activeCount conn.ledgerId⟩) : Except _ _) = _
    rw [hm.row, hm.activeCount]
    rfl
  | connect =>
    have hbody : (body (conn, .connect)).solo run db = (.ok .none, db) := by
      rw [solo_connect, if_pos hv, hm.row]
    rw [hbody]
    exact ⟨rfl, hm⟩

theorem opened_mirrors {b : BudgetLedger} (hf : Fresh conn.ledgerId db)
    (hfits : conn.tokens < 2 ^ 63 ∧ conn.costMicrounits < 2 ^ 63 ∧ conn.maxWorkers < 2 ^ 63)
    (hb : BudgetLedger.create conn.tokens conn.costMicrounits conn.maxWorkers = .ok b) :
    ((body (conn, .connect)).solo run db).1 = .ok .none ∧
      Mirrors conn.ledgerId b ((body (conn, .connect)).solo run db).2 := by
  have hcons := BudgetLedger.conserved_run hb .refl
  obtain ⟨_, hv, h⟩ := bind_ok.mp hb
  rw [require_ok] at hv
  cases h
  have hstorable : storable conn.tokens ∧ storable conn.costMicrounits ∧
      storable conn.maxWorkers := by
    unfold storable
    omega
  have hbody : (body (conn, .connect)).solo run db = (.ok .none, { db with
      ledgers := db.ledgers.set conn.ledgerId
        ⟨conn.tokens, conn.costMicrounits, conn.maxWorkers⟩ }) := by
    rw [solo_connect, if_pos hv, hf.1, run, atomically, Db.insertLedger]
    simp [require, hstorable, hf.1, bind, Except.bind, pure, Except.pure, Except.map]
  rw [hbody]
  refine ⟨rfl, ?_, hf.2, (conn.tokens, conn.costMicrounits), [], ⟨hfits.1, hfits.2.1⟩, ?_⟩
  · rw [Dict.get?_set, if_pos rfl, hcons.1]
  · rw [hcons.1]
    exact hcons.2

theorem connect_error {e : Domain.Error}
    (hb : BudgetLedger.create conn.tokens conn.costMicrounits conn.maxWorkers = .error e) :
    ((body (conn, .connect)).solo run db).1 = .error (.raised e) := by
  rw [solo_connect]
  rw [BudgetLedger.create] at hb
  by_cases hv : 0 ≤ conn.tokens ∧ 0 ≤ conn.costMicrounits ∧ 0 < conn.maxWorkers
  · rw [require, if_pos hv] at hb
    cases hb
  · rw [require, if_neg hv] at hb
    rw [if_neg hv]
    cases hb
    rfl

end Lockstep

/-- The allowance is conserved, by the ledger in memory over every sequence of calls and by the
durable one over every interleaving of connections; calls that raise change nothing; and alone
on its file the durable ledger answers every sequence of calls as the one in memory. -/
theorem budget_conserved :
    (∀ tokens cost maxWorkers b₀ ls b, BudgetLedger.create tokens cost maxWorkers = .ok b₀ →
      Run BudgetLedger.step b₀ ls b →
      Escrow.Conserved maxWorkers (tokens, cost) b.account
        (trace BudgetLedger.step BudgetLedger.settled b₀ ls) ∧
      ∀ call e, (b.perform call).1 = .error e → (b.perform call).2 = b) ∧
    (∀ ledgerId db ls c, Fresh ledgerId db → Run Step (connections.initial db) ls c →
      Accounted ledgerId c (trace Step (settledBy ledgerId) (connections.initial db) ls) ∧
      ∀ (i : Nat) fails c', Step c (.act i fails) = some c' → ∀ ls₂ c₂ call e, Run Step c' ls₂ c₂ →
        c₂.calls[i]? = some call → call.proc.result = some (.error e) → c'.state = c.state) ∧
    ∀ (conn : Connection) db, Fresh conn.ledgerId db →
      (conn.tokens < 2 ^ 63 ∧ conn.costMicrounits < 2 ^ 63 ∧ conn.maxWorkers < 2 ^ 63) →
      match BudgetLedger.create conn.tokens conn.costMicrounits conn.maxWorkers with
      | .error e => ((body (conn, .connect)).solo run db).1 = .error (.raised e)
      | .ok b => ((body (conn, .connect)).solo run db).1 = .ok .none ∧
        ∀ calls : List LedgerCall,
          answers (fun call db => (body (conn, call)).solo run db)
              ((body (conn, .connect)).solo run db).2 calls =
            (answers BudgetLedger.perform b calls).map (·.mapError .raised) := by
  refine ⟨fun tokens cost maxWorkers b₀ ls b h₀ hrun =>
    ⟨(BudgetLedger.conserved_run h₀ hrun).2, fun call e => BudgetLedger.perform_error⟩,
    fun ledgerId db ls c hf hrun => ⟨accounted_run hf hrun, ?_⟩, ?_⟩
  · intro i fails c' hs ls₂ c₂ call e h₂ hc hr
    obtain ⟨q, o, k, h, hact⟩ := Machine.step_act hs
    exact untouched_run hrun hact h₂ hc hr
  · intro conn db hf hfits
    cases hb : BudgetLedger.create conn.tokens conn.costMicrounits conn.maxWorkers with
    | error e => exact connect_error hb
    | ok b =>
      obtain ⟨hopened, hm⟩ := opened_mirrors hf hfits hb
      obtain ⟨_, hv, -⟩ := bind_ok.mp hb
      rw [require_ok] at hv
      refine ⟨hopened, fun calls => answers_eq (R := Mirrors conn.ledgerId) ?_ hm⟩
      exact fun call _ b db hm => lockstep hm hv call

def sampleConnection : Connection := ⟨"l", 10, 10, 2⟩

def sampleCalls : List LedgerCall :=
  [.reserve "d" 4 5, .connect, .release "d" 1 5, .release "d" 1 5, .snapshot]

theorem budget_conserved_sample :
    (answers (fun call db => (body (sampleConnection, call)).solo run db)
      ((body (sampleConnection, .connect)).solo run ⟨[], []⟩).2 sampleCalls).getLast? =
        some (.ok (.snapshot ⟨7, 10, 0⟩)) := by
  have h : _ ∧ ∀ calls : List LedgerCall, _ = (answers BudgetLedger.perform ⟨10, 10, 2, []⟩
      calls).map (·.mapError Error.raised) :=
    budget_conserved.2.2 sampleConnection ⟨[], []⟩ ⟨rfl, rfl⟩ (by decide)
  rw [h.2 sampleCalls]
  decide

end DurableBudgetLedger

end SubagentBridge.Planner
